import NativeGlue.Symbol.Overload
import NativeGlue.Proofs.Descriptor.RoundTrip
import NativeGlue.Proofs.Text.Order

/-!
# Ranking finds every clash

Two methods clash if they share name and parameter types. A group is sorted by
whole descriptors, results included, and only neighbours are compared. That is
enough, because what is sorted between two descriptors with the same
parameters has these parameters too. A class without clashes is ranked, and
each of its methods gets its place in its group.
-/

namespace NativeGlue

/-- Descriptors between two with the same parameters have these too. -/
theorem MethodDescriptor.params_eq_of_between {a b c : MethodDescriptor}
    (canonicalA : a.IsCanonical) (canonicalB : b.IsCanonical)
    (low : Text.le a.encode b.encode = true)
    (high : Text.le b.encode c.encode = true)
    (same : a.params = c.params) : a.params = b.params := by
  rw [Text.le, encode, encode, String.toList_ofList, String.toList_ofList]
    at low high
  have shape : ∀ d : MethodDescriptor, d.params = a.params →
      d.chars = '(' :: (a.paramChars ++ [')']) ++ d.ret.chars := by
    intro d params
    simp [chars, paramChars, params]
  rw [shape a rfl] at low
  rw [shape c same.symm] at high
  obtain ⟨rest, eq⟩ := Text.prefix_of_between low high
  have inner : a.paramChars ++ ')' :: rest =
      b.paramChars ++ ')' :: b.ret.chars := by
    simpa [chars] using eq
  exact canonicalA.params_eq canonicalB inner

namespace Overload

/-- Methods of which no two share name and parameter types. -/
def Distinct (methods : List Method) : Prop :=
  methods.Pairwise fun a b =>
    a.name = b.name → a.descriptor.params ≠ b.descriptor.params

instance (methods : List Method) : Decidable (Distinct methods) :=
  inferInstanceAs (Decidable (methods.Pairwise _))

/-- Methods whose descriptors are canonical. -/
def Canonical (methods : List Method) : Prop :=
  ∀ m ∈ methods, m.descriptor.IsCanonical

instance (methods : List Method) : Decidable (Canonical methods) :=
  inferInstanceAs (Decidable (∀ m ∈ methods, m.descriptor.IsCanonical))

section Group

variable {name : String} {methods : List Method}

theorem group_perm (name : String) (methods : List Method) :
    (group name methods).Perm (methods.filter fun m => m.name = name) :=
  List.mergeSort_perm _ _

theorem mem_group {m : Method} :
    m ∈ group name methods ↔ m ∈ methods ∧ m.name = name := by
  rw [(group_perm name methods).mem_iff]
  simp

theorem pairwise_group (name : String) (methods : List Method) :
    (group name methods).Pairwise fun a b => descriptorLe a b = true := by
  apply List.pairwise_mergeSort
  · intro a b c low high
    exact Text.le_trans low high
  · intro a b
    exact Text.le_total a.descriptor.encode b.descriptor.encode

/-- Where neighbours differ in a sorted group, all its methods differ. -/
theorem samePair?_eq_none_iff {members : List Method}
    (canonical : Canonical members)
    (sorted : members.Pairwise fun a b => descriptorLe a b = true) :
    samePair? members = none ↔
      members.Pairwise fun a b =>
        a.descriptor.params ≠ b.descriptor.params := by
  induction members with
  | nil =>
      simp [samePair?]
  | cons a members ih =>
      cases members with
      | nil =>
          simp [samePair?]
      | cons b rest =>
          have tail := ih (fun m member =>
            canonical m (List.mem_cons_of_mem a member)) sorted.of_cons
          rw [samePair?, List.pairwise_cons]
          constructor
          · intro none
            split at none
            · cases none
            · rename_i differs
              have others := tail.mp none
              refine ⟨?_, others⟩
              intro c member same
              rcases List.mem_cons.mp member with rfl | further
              · exact differs same
              · have low := List.rel_of_pairwise_cons sorted
                  List.mem_cons_self
                have high := List.rel_of_pairwise_cons sorted.of_cons further
                exact differs (MethodDescriptor.params_eq_of_between
                  (canonical a List.mem_cons_self)
                  (canonical b (List.mem_cons_of_mem a List.mem_cons_self))
                  low high same)
          · rintro ⟨first, others⟩
            rw [if_neg (first b List.mem_cons_self), tail.mpr others]

/-- The methods of a group differ if those of a class of that name do. -/
theorem samePair?_group_eq_none_iff (canonical : Canonical methods) :
    samePair? (group name methods) = none ↔
      methods.Pairwise fun a b => a.name = name → b.name = name →
        a.descriptor.params ≠ b.descriptor.params := by
  rw [samePair?_eq_none_iff
      (fun m member => canonical m (mem_group.mp member).1)
      (pairwise_group name methods),
    (group_perm name methods).pairwise_iff fun differs => Ne.symm differs,
    List.pairwise_filter]
  simp only [decide_eq_true_eq]

end Group

section Ranks

variable {owner : ClassName} {methods : List Method} {rs : List Rank}

theorem mem_names {name : String} :
    name ∈ names methods ↔ ∃ m ∈ methods, m.name = name := by
  have step : ∀ (ms : List Method) (seen : List String),
      name ∈ ms.foldl (fun seen m =>
          if seen.contains m.name then seen else seen ++ [m.name]) seen ↔
        name ∈ seen ∨ ∃ m ∈ ms, m.name = name := by
    intro ms
    induction ms with
    | nil =>
        simp
    | cons m ms ih =>
        intro seen
        rw [List.foldl_cons, ih, List.exists_mem_cons_iff]
        split
        · rename_i known
          have known : m.name ∈ seen := by simpa using known
          constructor
          · rintro (before | later)
            · exact .inl before
            · exact .inr (.inr later)
          · rintro (before | rfl | later)
            · exact .inl before
            · exact .inl known
            · exact .inr later
        · rw [List.mem_append, List.mem_singleton, or_assoc,
            eq_comm (a := name)]
  have all := step methods []
  rwa [or_iff_right (List.not_mem_nil)] at all

/-- Names are ranked if no group of theirs has a clash between neighbours. -/
theorem ranksOfNames_eq_ok_iff {found : List String} :
    ranksOfNames owner methods found = .ok rs ↔
      (∀ name ∈ found, samePair? (group name methods) = none) ∧
        rs = found.flatMap fun name => ranksOfGroup (group name methods) := by
  induction found generalizing rs with
  | nil =>
      simp [ranksOfNames, eq_comm]
  | cons name found ih =>
      rw [ranksOfNames, List.forall_mem_cons, List.flatMap_cons]
      cases pair : samePair? (group name methods) with
      | some clash =>
          simp
      | none =>
          cases others : ranksOfNames owner methods found with
          | error e =>
              have never : ¬ ∀ name ∈ found,
                  samePair? (group name methods) = none := by
                intro clear
                rw [ih.mpr ⟨clear, rfl⟩] at others
                cases others
              simp [never]
          | ok ranks =>
              obtain ⟨clear, rfl⟩ := ih.mp others
              rw [Except.ok.injEq, eq_comm, and_iff_right ⟨rfl, clear⟩]

/-- A class is ranked if no two of its methods share name and parameters. -/
theorem ranks_eq_ok_iff (canonical : Canonical methods) :
    ranks owner methods = .ok rs ↔
      Distinct methods ∧
        rs = (names methods).flatMap fun name =>
          ranksOfGroup (group name methods) := by
  rw [ranks, ranksOfNames_eq_ok_iff]
  refine and_congr_left fun _ => ?_
  constructor
  · intro clear
    rw [Distinct, List.pairwise_iff_forall_sublist]
    intro a b within same
    have member : a ∈ methods := within.subset List.mem_cons_self
    have differs := (samePair?_group_eq_none_iff canonical).mp
      (clear a.name (mem_names.mpr ⟨a, member, rfl⟩))
    exact List.pairwise_iff_forall_sublist.mp differs within rfl same.symm
  · intro distinct name _
    rw [samePair?_group_eq_none_iff canonical]
    exact distinct.imp fun differs left right =>
      differs (left.trans right.symm)

/-- A class that is not ranked has two methods that clash. -/
theorem ranks_eq_error {collision : Collision}
    (failed : ranks owner methods = .error collision) :
    collision.owner = owner ∧
      ∃ other, collision.clash = .sameParams other := by
  have step : ∀ found, ranksOfNames owner methods found = .error collision →
      collision.owner = owner ∧
        ∃ other, collision.clash = .sameParams other := by
    intro found
    induction found with
    | nil =>
        intro failed
        cases failed
    | cons name found ih =>
        intro failed
        rw [ranksOfNames] at failed
        split at failed
        · cases failed
          exact ⟨rfl, _, rfl⟩
        · split at failed
          · rename_i further
            cases failed
            exact ih further
          · cases failed
  exact step _ failed

/-- The rank of a method is that of its name and descriptor. -/
theorem indexOf_eq_of_forall {m : Method} {index : Option Nat}
    (exists_rank : ∃ r ∈ rs,
      r.name = m.name ∧ r.descriptor = m.descriptor.encode)
    (all : ∀ r ∈ rs, r.name = m.name →
      r.descriptor = m.descriptor.encode → r.index = index) :
    indexOf rs m = index := by
  unfold indexOf
  cases found : rs.reverse.find? (fun r =>
      r.name = m.name && r.descriptor = m.descriptor.encode) with
  | none =>
      obtain ⟨r, member, name, descriptor⟩ := exists_rank
      have never := List.find?_eq_none.mp found r (List.mem_reverse.mpr member)
      simp [name, descriptor] at never
  | some r =>
      have holds := List.find?_some found
      simp only [Bool.and_eq_true, decide_eq_true_eq] at holds
      exact all r (List.mem_reverse.mp (List.mem_of_find?_eq_some found))
        holds.1 holds.2

/-- The methods of a group differ in their parameters if no two clash. -/
theorem Distinct.group (distinct : Distinct methods) (name : String) :
    (group name methods).Pairwise fun a b =>
      a.descriptor.params ≠ b.descriptor.params := by
  rw [(group_perm name methods).pairwise_iff fun differs => Ne.symm differs,
    List.pairwise_filter]
  refine distinct.imp fun differs left right => differs ?_
  simp only [decide_eq_true_eq] at left right
  rw [left, right]

/-- Methods that differ in their parameters have one place each. -/
theorem eq_place_of_params_eq {members : List Method}
    (differ : members.Pairwise fun a b =>
      a.descriptor.params ≠ b.descriptor.params) {a b : Method} {i j : Nat}
    (at_i : members[i]? = some a) (at_j : members[j]? = some b)
    (same : a.descriptor.params = b.descriptor.params) : i = j := by
  obtain ⟨boundI, rfl⟩ := List.getElem?_eq_some_iff.mp at_i
  obtain ⟨boundJ, rfl⟩ := List.getElem?_eq_some_iff.mp at_j
  rw [List.pairwise_iff_getElem] at differ
  rcases Nat.lt_trichotomy i j with before | rfl | behind
  · exact absurd same (differ i j boundI boundJ before)
  · rfl
  · exact absurd same.symm (differ j i boundJ boundI behind)

/-- The index of a place in a group. -/
def indexAt (size position : Nat) : Option Nat :=
  if 1 < size then some (min maxIndex position) else none

theorem mem_ranksOfGroup {members : List Method} {r : Rank} :
    r ∈ ranksOfGroup members ↔
      ∃ (m : Method) (i : Nat), members[i]? = some m ∧
        r = ⟨m.name, m.descriptor.encode, indexAt members.length i⟩ := by
  simp only [ranksOfGroup, List.mem_map, Prod.exists,
    List.mem_zipIdx_iff_getElem?]
  constructor
  · rintro ⟨m, i, at_i, rfl⟩
    exact ⟨m, i, at_i, rfl⟩
  · rintro ⟨m, i, at_i, rfl⟩
    exact ⟨m, i, at_i, rfl⟩

/-- In a class without clashes a method has the index of its place. -/
theorem indexOf_eq_indexAt (canonical : Canonical methods)
    (ranked : ranks owner methods = .ok rs) {m : Method} {i : Nat}
    (place : (group m.name methods)[i]? = some m) :
    indexOf rs m = indexAt (group m.name methods).length i := by
  obtain ⟨distinct, rfl⟩ := (ranks_eq_ok_iff canonical).mp ranked
  have member := (mem_group.mp (List.mem_of_getElem? place)).1
  have listed : m.name ∈ names methods := mem_names.mpr ⟨m, member, rfl⟩
  apply indexOf_eq_of_forall
  · refine ⟨_, List.mem_flatMap.mpr ⟨m.name, listed,
      mem_ranksOfGroup.mpr ⟨m, i, place, rfl⟩⟩, rfl, rfl⟩
  · intro r inside sameName sameDescriptor
    obtain ⟨name, -, inside⟩ := List.mem_flatMap.mp inside
    obtain ⟨n, j, at_j, rfl⟩ := mem_ranksOfGroup.mp inside
    simp only at sameName sameDescriptor
    obtain ⟨amongN, named⟩ := mem_group.mp (List.mem_of_getElem? at_j)
    obtain rfl : name = m.name := named.symm.trans sameName
    have same := (canonical n amongN).encode_inj (canonical m member)
      sameDescriptor
    rw [eq_place_of_params_eq (distinct.group m.name) at_j place
      (congrArg MethodDescriptor.params same)]

theorem one_lt_length_group {a b : Method} (left : a ∈ methods)
    (right : b ∈ methods) (same : a.name = b.name) (differ : a ≠ b) :
    1 < (group a.name methods).length := by
  have inA : a ∈ group a.name methods := mem_group.mpr ⟨left, rfl⟩
  have inB : b ∈ group a.name methods := mem_group.mpr ⟨right, same.symm⟩
  match eq : group a.name methods, inA, inB with
  | [c], inA, inB =>
      rw [List.mem_singleton] at inA inB
      exact absurd (inA.trans inB.symm) differ
  | c :: d :: rest, _, _ => simp

/-- A method has no index exactly if it is alone in its group. -/
theorem indexOf_eq_none_iff (canonical : Canonical methods)
    (ranked : ranks owner methods = .ok rs) {m : Method}
    (member : m ∈ methods) :
    indexOf rs m = none ↔ (group m.name methods).length ≤ 1 := by
  have inside : m ∈ group m.name methods := mem_group.mpr ⟨member, rfl⟩
  obtain ⟨i, place⟩ := List.mem_iff_getElem?.mp inside
  rw [indexOf_eq_indexAt canonical ranked place, indexAt]
  split <;> simp_all

/-- Methods of one name have different indices, where these are not cut. -/
theorem indexOf_ne (canonical : Canonical methods)
    (ranked : ranks owner methods = .ok rs)
    (few : methods.length ≤ maxIndex) {a b : Method}
    (left : a ∈ methods) (right : b ∈ methods) (same : a.name = b.name)
    (differ : a ≠ b) : indexOf rs a ≠ indexOf rs b := by
  have size : (group a.name methods).length ≤ maxIndex := by
    rw [(group_perm a.name methods).length_eq]
    exact (List.length_filter_le _ methods).trans few
  have several := one_lt_length_group left right same differ
  obtain ⟨i, atI⟩ := List.mem_iff_getElem?.mp (mem_group.mpr ⟨left, rfl⟩)
  obtain ⟨j, atJ⟩ := List.mem_iff_getElem?.mp (mem_group.mpr ⟨right, rfl⟩)
  have boundI := (List.getElem?_eq_some_iff.mp atI).1
  have boundJ := (List.getElem?_eq_some_iff.mp atJ).1
  rw [indexOf_eq_indexAt canonical ranked atI,
    indexOf_eq_indexAt canonical ranked atJ]
  rw [← same] at atJ boundJ ⊢
  rw [indexAt, indexAt, if_pos several, if_pos several, Ne,
    Option.some.injEq]
  intro eq
  have places : i = j := by omega
  subst places
  rw [atI] at atJ
  exact differ (Option.some.inj atJ)

end Ranks

end Overload

end NativeGlue
