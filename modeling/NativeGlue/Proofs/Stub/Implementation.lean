import Mathlib.Data.List.NodupEquivFin
import Mathlib.Data.List.Perm.Subperm
import Mathlib.Logic.Function.Basic
import NativeGlue.Proofs.Text.Digits
import NativeGlue.Stub.Implementation

/-!
# Names of implementations are apart

A method whose prototype no other method has keeps its name. The others are
numbered, each with the least number that makes a name not taken in its
namespace, and so is taken from then on.

Numbers can be found by counting up for each prototype on its own, since names
only become taken: a number that was passed over once stays so. The search
ends, for there are more numbers than names that are taken.
-/

namespace NativeGlue
namespace Lowering

variable {taken : List (List String × String)} {p q : Prototype} {n k : Nat}

section Numbers

theorem numbered_inj {name : String} :
    numbered name n = numbered name k ↔ n = k := by
  constructor
  · intro eq
    exact Text.eq_of_toString_eq (String.append_right_inj _ |>.mp eq)
  · rintro rfl
    rfl

theorem numbered_ne (name : String) (n : Nat) : numbered name n ≠ name := by
  intro eq
  have lengths := congrArg String.length eq
  have mark : "_".length = 1 := rfl
  simp only [numbered, String.length_append, mark] at lengths
  omega

/-- Whether a number makes a name that is not taken in the namespace. -/
def IsFree (taken : List (List String × String)) (p : Prototype) (n : Nat) :
    Prop :=
  (p.space, numbered p.name n) ∉ taken

/-- Of more numbers than there are names taken, one is free. -/
theorem exists_isFree (taken : List (List String × String)) (p : Prototype)
    (start : Nat) :
    ∃ n, start ≤ n ∧ n ≤ start + taken.length ∧ IsFree taken p n := by
  by_contra none
  push Not at none
  let names := (List.range' start (taken.length + 1)).map fun n =>
    (p.space, numbered p.name n)
  have nodup : names.Nodup := by
    refine List.Nodup.map ?_ List.nodup_range'
    intro m n eq
    exact numbered_inj.mp (Prod.mk.inj eq).2
  have subset : names ⊆ taken := by
    intro x member
    obtain ⟨n, inside, rfl⟩ := List.mem_map.mp member
    rw [List.mem_range'_1] at inside
    exact not_not.mp (none n inside.1 (by omega))
  have length := (List.subperm_of_subset nodup subset).length_le
  simp [names] at length

end Numbers

section Search

theorem freeNumber_spec (taken : List (List String × String)) (p : Prototype) :
    IsFree taken p (freeNumber taken p) ∧ freeNumber taken p ≤ taken.length ∧
      ∀ n < freeNumber taken p, ¬ IsFree taken p n := by
  obtain ⟨n, -, bound, free⟩ := exists_isFree taken p 0
  have found : ∃ k, (List.range (taken.length + 1)).find?
      (fun n => !taken.contains (p.space, numbered p.name n)) = some k := by
    rw [← Option.isSome_iff_exists, List.find?_isSome]
    refine ⟨n, List.mem_range.mpr (by omega), ?_⟩
    simpa [IsFree] using free
  obtain ⟨k, found⟩ := found
  have eq : freeNumber taken p = k := by
    rw [freeNumber, found]
    rfl
  obtain ⟨free, inside, earlier⟩ := List.find?_range_eq_some.mp found
  rw [eq]
  refine ⟨by simpa [IsFree] using free, ?_, fun n before => ?_⟩
  · have := List.mem_range.mp inside
    omega
  · simpa [IsFree] using earlier n before

/-- A search that counts up until a number makes a name that is not taken. -/
inductive CountsTo (taken : List (List String × String)) (p : Prototype) :
    Nat → Nat → Prop
  | here {n : Nat} : IsFree taken p n → CountsTo taken p n n
  | later {n k : Nat} :
      ¬ IsFree taken p n → CountsTo taken p (n + 1) k → CountsTo taken p n k

/-- A search ends at the first number that is free. -/
theorem countsTo_iff :
    CountsTo taken p n k ↔
      n ≤ k ∧ IsFree taken p k ∧ ∀ i, n ≤ i → i < k → ¬ IsFree taken p i := by
  constructor
  · intro counts
    induction counts with
    | here free =>
        exact ⟨le_rfl, free, fun i low high => by omega⟩
    | later used _ ih =>
        obtain ⟨bound, free, earlier⟩ := ih
        refine ⟨by omega, free, fun i low high => ?_⟩
        rcases Nat.eq_or_lt_of_le low with rfl | low
        · exact used
        · exact earlier i low high
  · rintro ⟨bound, free, earlier⟩
    induction bound using Nat.decreasingInduction with
    | self => exact .here free
    | of_succ n before ih =>
        exact .later (earlier n le_rfl before)
          (ih fun i low high => earlier i (by omega) high)

/-- Wherever it starts, a search ends. -/
theorem exists_countsTo (taken : List (List String × String)) (p : Prototype)
    (start : Nat) : ∃ k, CountsTo taken p start k := by
  classical
  have some : ∃ n, start ≤ n ∧ IsFree taken p n := by
    obtain ⟨n, low, -, free⟩ := exists_isFree taken p start
    exact ⟨n, low, free⟩
  refine ⟨Nat.find some, countsTo_iff.mpr ⟨(Nat.find_spec some).1,
    (Nat.find_spec some).2, fun i low before free => ?_⟩⟩
  exact Nat.find_min some before ⟨low, free⟩

/-- Where all numbers before its start are used, a search ends at the least. -/
theorem countsTo_iff_eq_freeNumber (used : ∀ i < n, ¬ IsFree taken p i) :
    CountsTo taken p n k ↔ k = freeNumber taken p := by
  obtain ⟨free, -, earlier⟩ := freeNumber_spec taken p
  rw [countsTo_iff]
  constructor
  · rintro ⟨-, freeK, earlierK⟩
    rcases Nat.lt_trichotomy k (freeNumber taken p) with low | eq | high
    · exact absurd freeK (earlier k low)
    · exact eq
    · by_cases before : freeNumber taken p < n
      · exact absurd free (used _ before)
      · exact absurd free (earlierK _ (by omega) high)
  · rintro rfl
    refine ⟨?_, free, fun i _ before => earlier i before⟩
    by_contra before
    exact used _ (by omega) free

end Search

section Counters

/--
How names are given out with a counter for each prototype: the next search for
a prototype starts behind the number that the last one found.
-/
inductive Names (all : List Prototype) :
    List (List String × String) → (Prototype → Nat) → List Prototype →
      List String → Prop
  | nil {taken : List (List String × String)} {next : Prototype → Nat} :
      Names all taken next [] []
  | kept {taken : List (List String × String)} {next : Prototype → Nat}
      {p : Prototype} {rest : List Prototype} {names : List String} :
      all.count p = 1 → Names all taken next rest names →
        Names all taken next (p :: rest) (p.name :: names)
  | numbered {taken : List (List String × String)} {next : Prototype → Nat}
      {p : Prototype} {rest : List Prototype} {names : List String} {k : Nat} :
      all.count p ≠ 1 → CountsTo taken p (next p) k →
        Names all (taken ++ [(p.space, numbered p.name k)])
          (Function.update next p (k + 1)) rest names →
        Names all taken next (p :: rest) (numbered p.name k :: names)

/-- What is behind a counter is used, also after it has moved on. -/
theorem not_isFree_update {next : Prototype → Nat}
    (used : ∀ q, ∀ i < next q, ¬ IsFree taken q i)
    (counts : CountsTo taken p (next p) k) :
    ∀ q, ∀ i < Function.update next p (k + 1) q,
      ¬ IsFree (taken ++ [(p.space, numbered p.name k)]) q i := by
  obtain ⟨-, -, earlier⟩ := countsTo_iff.mp counts
  have grown {q : Prototype} {i : Nat} (old : ¬ IsFree taken q i) :
      ¬ IsFree (taken ++ [(p.space, numbered p.name k)]) q i := by
    rw [IsFree, not_not] at old ⊢
    exact List.mem_append_left _ old
  intro q i before
  by_cases same : q = p
  · subst same
    rw [Function.update_self] at before
    rcases Nat.lt_or_eq_of_le (Nat.le_of_lt_succ before) with before | rfl
    · by_cases behind : i < next q
      · exact grown (used q i behind)
      · exact grown (earlier i (by omega) before)
    · rw [IsFree, not_not]
      exact List.mem_append_right _ (List.mem_singleton_self _)
  · rw [Function.update_of_ne same] at before
    exact grown (used q i before)

/-- Counting from where each search ended gives the least free numbers. -/
theorem names_iff {all ps : List Prototype} {next : Prototype → Nat}
    {names : List String} (used : ∀ q, ∀ i < next q, ¬ IsFree taken q i) :
    Names all taken next ps names ↔ names = namesFrom all taken ps := by
  induction ps generalizing taken next names with
  | nil =>
      constructor
      · rintro ⟨⟩
        rfl
      · rintro rfl
        exact .nil
  | cons p rest ih =>
      rw [namesFrom]
      by_cases single : all.count p = 1
      · rw [if_pos single]
        constructor
        · intro run
          cases run with
          | kept _ run => rw [(ih used).mp run]
          | numbered several => exact absurd single several
        · rintro rfl
          exact .kept single ((ih used).mpr rfl)
      · rw [if_neg single]
        constructor
        · intro run
          cases run with
          | kept alone => exact absurd alone single
          | numbered _ counts run =>
              rw [(ih (not_isFree_update used counts)).mp run,
                (countsTo_iff_eq_freeNumber (used p)).mp counts]
        · rintro rfl
          have counts : CountsTo taken p (next p) (freeNumber taken p) :=
            (countsTo_iff_eq_freeNumber (used p)).mpr rfl
          exact .numbered single counts
            ((ih (not_isFree_update used counts)).mpr rfl)

/-- The names that stand from the start: those that are kept. -/
def keptNames (all : List Prototype) : List (List String × String) :=
  (all.filter fun p => all.count p = 1).map fun p => (p.space, p.name)

/-- The names of implementations are those that counters give out. -/
theorem names_iff_eq_implementationNames {all : List Prototype}
    {names : List String} :
    Names all (keptNames all) (fun _ => 0) all names ↔
      names = implementationNames all :=
  names_iff fun _ i before => absurd before (Nat.not_lt_zero i)

end Counters

section Places

variable {all ps : List Prototype} {name name' : String} {i j : Nat}

@[simp] theorem length_namesFrom (all : List Prototype)
    (taken : List (List String × String)) (ps : List Prototype) :
    (namesFrom all taken ps).length = ps.length := by
  induction ps generalizing taken with
  | nil => rfl
  | cons p rest ih =>
      rw [namesFrom]
      split <;> simp [ih]

theorem eq_of_kept (single : all.count p = 1) (own : ps[i]? = some p)
    (given : (namesFrom all taken ps)[i]? = some name) : name = p.name := by
  induction ps generalizing taken i with
  | nil => cases own
  | cons first rest ih =>
      rw [namesFrom] at given
      cases i with
      | zero =>
          cases own
          rw [if_pos single] at given
          cases given
          rfl
      | succ i =>
          split at given
          · exact ih own given
          · exact ih own given

/-- A numbered name was not taken, and its number is not too large. -/
theorem numbered_of_not_kept (several : all.count p ≠ 1)
    (own : ps[i]? = some p)
    (given : (namesFrom all taken ps)[i]? = some name) :
    (p.space, name) ∉ taken ∧
      ∃ n < taken.length + ps.countP fun q => all.count q ≠ 1,
        name = numbered p.name n := by
  induction ps generalizing taken i with
  | nil => cases own
  | cons first rest ih =>
      rw [namesFrom] at given
      cases i with
      | zero =>
          cases own
          rw [if_neg several] at given
          cases given
          obtain ⟨free, bound, -⟩ := freeNumber_spec taken p
          refine ⟨free, _, ?_, rfl⟩
          rw [List.countP_cons_of_pos (by simpa using several)]
          omega
      | succ i =>
          by_cases single : all.count first = 1
          · rw [if_pos single] at given
            rw [List.countP_cons_of_neg (by simpa using single)]
            exact ih own given
          · rw [if_neg single] at given
            obtain ⟨fresh, n, bound, eq⟩ := ih own given
            rw [List.length_append, List.length_singleton] at bound
            rw [List.countP_cons_of_pos (by simpa using single)]
            exact ⟨fun member => fresh (List.mem_append_left _ member), n,
              by omega, eq⟩

/-- No name in a namespace is given to two methods that are numbered. -/
theorem numbered_apart (severalP : all.count p ≠ 1)
    (severalQ : all.count q ≠ 1) (order : i < j) (ownP : ps[i]? = some p)
    (ownQ : ps[j]? = some q)
    (givenP : (namesFrom all taken ps)[i]? = some name)
    (givenQ : (namesFrom all taken ps)[j]? = some name') :
    (p.space, name) ≠ (q.space, name') := by
  induction ps generalizing taken i j with
  | nil => cases ownP
  | cons first rest ih =>
      obtain ⟨j, rfl⟩ := Nat.exists_eq_succ_of_ne_zero (by omega : j ≠ 0)
      rw [namesFrom] at givenP givenQ
      cases i with
      | zero =>
          cases ownP
          rw [if_neg severalP] at givenP givenQ
          cases givenP
          have ownQ' : rest[j]? = some q := ownQ
          have later : (namesFrom all
              (taken ++ [(p.space, numbered p.name (freeNumber taken p))])
              rest)[j]? = some name' := givenQ
          intro same
          refine (numbered_of_not_kept severalQ ownQ' later).1 ?_
          rw [← same]
          exact List.mem_append_right _ (List.mem_singleton_self _)
      | succ i =>
          split at givenP
          · rename_i single
            rw [if_pos single] at givenQ
            exact ih (by omega) ownP ownQ givenP givenQ
          · rename_i single
            rw [if_neg single] at givenQ
            exact ih (by omega) ownP ownQ givenP givenQ

end Places

section Whole

variable {all : List Prototype} {name name' : String} {i j : Nat}

/-- A prototype that is counted once is nobody else's. -/
theorem count_eq_one_iff (own : all[i]? = some p) :
    all.count p = 1 ↔ ∀ j, j ≠ i → all[j]? ≠ some p := by
  have positive : 0 < all.count p :=
    List.count_pos_iff.mpr (List.mem_of_getElem? own)
  have twice : 2 ≤ all.count p ↔ ∃ j, j ≠ i ∧ all[j]? = some p := by
    obtain ⟨bound, eq⟩ := List.getElem?_eq_some_iff.mp own
    rw [← List.duplicate_iff_two_le_count,
      List.duplicate_iff_exists_distinct_get]
    constructor
    · rintro ⟨m, n, less, left, right⟩
      by_cases first : m.val = i
      · refine ⟨n, fun eq => ?_, ?_⟩
        · omega
        · exact List.getElem?_eq_some_iff.mpr ⟨n.isLt, right.symm⟩
      · exact ⟨m, first, List.getElem?_eq_some_iff.mpr ⟨m.isLt, left.symm⟩⟩
    · rintro ⟨j, other, there⟩
      obtain ⟨bound', eq'⟩ := List.getElem?_eq_some_iff.mp there
      rcases Nat.lt_or_gt_of_ne other with less | less
      · exact ⟨⟨j, bound'⟩, ⟨i, bound⟩, less, eq'.symm, eq.symm⟩
      · exact ⟨⟨i, bound⟩, ⟨j, bound'⟩, less, eq.symm, eq'.symm⟩
  constructor
  · intro once j other there
    have := twice.mpr ⟨j, other, there⟩
    omega
  · intro alone
    by_contra several
    obtain ⟨j, other, there⟩ := twice.mp (by omega)
    exact alone j other there

theorem mem_keptNames (single : all.count p = 1) (own : all[i]? = some p) :
    (p.space, p.name) ∈ keptNames all := by
  refine List.mem_map.mpr ⟨p, List.mem_filter.mpr ⟨?_, ?_⟩, rfl⟩
  · exact List.mem_of_getElem? own
  · simpa using single

theorem length_keptNames_add (all : List Prototype) :
    (keptNames all).length + (all.countP fun q => all.count q ≠ 1) =
      all.length := by
  rw [keptNames, List.length_map, ← List.countP_eq_length_filter]
  conv_rhs => rw [List.length_eq_countP_add_countP fun q => all.count q = 1]
  simp

/-- The prototypes of some methods under the names that they are given. -/
def named (all : List Prototype) : List Prototype :=
  all.zipWith (fun p name => { p with name }) (implementationNames all)

@[simp] theorem length_named (all : List Prototype) :
    (named all).length = all.length := by
  simp [named, implementationNames]

theorem getElem?_named (own : all[i]? = some p)
    (given : (named all)[i]? = some q) :
    ∃ name, (implementationNames all)[i]? = some name ∧
      q = { p with name } := by
  rw [named, List.getElem?_zipWith, own] at given
  cases named : (implementationNames all)[i]? with
  | none =>
      rw [named] at given
      cases given
  | some name =>
      rw [named] at given
      cases given
      exact ⟨name, rfl, rfl⟩

/-- What names have to be given to prototypes so that each is its own. -/
structure Distinguishes (own given : List Prototype) : Prop where
  places : List.Forall₂
    (fun p q : Prototype => q.space = p.space ∧ q.params = p.params) own given
  apart : given.Nodup
  /-- A name is kept where no other method has the same prototype. -/
  kept : ∀ (i : Nat) (p q : Prototype), own[i]? = some p →
    given[i]? = some q →
    (q.name = p.name ↔ ∀ j, j ≠ i → own[j]? ≠ some p)
  /-- Else it is numbered, and nobody else has the name in that namespace. -/
  numbered : ∀ (i : Nat) (p q : Prototype), own[i]? = some p →
    given[i]? = some q → q.name ≠ p.name →
      (∃ n < own.length, q.name = Lowering.numbered p.name n) ∧
      ∀ (j : Nat) (q' : Prototype), j ≠ i → given[j]? = some q' →
        ¬ (q'.space = q.space ∧ q'.name = q.name)

/-- Names that are given in two places, one of them with a number. -/
theorem ne_of_not_kept {p' : Prototype} (several : all.count p ≠ 1)
    (other : j ≠ i) (own : all[i]? = some p) (own' : all[j]? = some p')
    (given : (implementationNames all)[i]? = some name)
    (given' : (implementationNames all)[j]? = some name') :
    (p.space, name) ≠ (p'.space, name') := by
  by_cases single : all.count p' = 1
  · -- Kept names are taken from the start.
    rw [eq_of_kept single own' given']
    intro same
    refine (numbered_of_not_kept several own given).1 ?_
    rw [same]
    exact mem_keptNames single own'
  · rcases Nat.lt_or_gt_of_ne other with less | less
    · exact (numbered_apart single several less own' own given' given).symm
    · exact numbered_apart several single less own own' given given'

theorem nodup_named (all : List Prototype) : (named all).Nodup := by
  rw [List.nodup_iff_getElem?_ne_getElem?]
  intro i j less bound same
  rw [length_named] at bound
  have own : all[i]? = some all[i] := List.getElem?_eq_getElem (by omega)
  have own' : all[j]? = some all[j] := List.getElem?_eq_getElem bound
  obtain ⟨q, given'⟩ : ∃ q, (named all)[j]? = some q :=
    ⟨_, List.getElem?_eq_getElem (by rwa [length_named])⟩
  obtain ⟨name, given, eq⟩ := getElem?_named own (same.trans given')
  obtain ⟨name', given', eq'⟩ := getElem?_named own' given'
  obtain ⟨space, rfl, params⟩ := Prototype.mk.inj (eq.symm.trans eq')
  by_cases single : all.count all[i] = 1
  · by_cases single' : all.count all[j] = 1
    · -- Both names are kept, so the prototypes were the same before.
      refine (count_eq_one_iff own).mp single j (by omega) ?_
      have name : all[j].name = all[i].name :=
        (eq_of_kept single' own' given').symm.trans
          (eq_of_kept single own given)
      have whole : all[j] = all[i] :=
        (Prototype.mk.injEq ..).mpr ⟨space.symm, name, params.symm⟩
      rw [own', whole]
    · exact ne_of_not_kept single' (by omega) own' own given' given
        (by rw [space])
  · exact ne_of_not_kept single (by omega) own own' given given' (by rw [space])

theorem distinguishes_named (all : List Prototype) :
    Distinguishes all (named all) := by
  have kept {i : Nat} {p : Prototype} {name : String}
      (own : all[i]? = some p)
      (given : (implementationNames all)[i]? = some name) :
      name = p.name ↔ all.count p = 1 := by
    by_cases single : all.count p = 1
    · exact iff_of_true (eq_of_kept single own given) single
    · obtain ⟨-, n, -, rfl⟩ := numbered_of_not_kept single own given
      exact iff_of_false (numbered_ne p.name n) single
  refine ⟨?_, nodup_named all, ?_, ?_⟩
  · rw [List.forall₂_iff_get]
    refine ⟨(length_named all).symm, fun i bound bound' => ?_⟩
    simp [named]
  · intro i p q own given
    obtain ⟨name, renamed, rfl⟩ := getElem?_named own given
    exact (kept own renamed).trans (count_eq_one_iff own)
  · intro i p q own given other
    obtain ⟨name, renamed, rfl⟩ := getElem?_named own given
    have several : all.count p ≠ 1 := fun single =>
      other ((kept own renamed).mpr single)
    obtain ⟨-, n, bound, eq⟩ := numbered_of_not_kept several own renamed
    refine ⟨⟨n, ?_, eq⟩, ?_⟩
    · rwa [← length_keptNames_add all]
    · rintro j q' apart given' ⟨space, same⟩
      obtain ⟨inside, -⟩ := List.getElem?_eq_some_iff.mp given'
      rw [length_named] at inside
      have own' : all[j]? = some all[j] := List.getElem?_eq_getElem inside
      obtain ⟨name', renamed', rfl⟩ := getElem?_named own' given'
      exact ne_of_not_kept several apart own own' renamed renamed'
        (Prod.ext space.symm same.symm)

end Whole

end Lowering
end NativeGlue
