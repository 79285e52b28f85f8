import Mathlib.Algebra.GroupWithZero.Nat
import Mathlib.Data.Set.Insert
import Mathlib.Logic.Function.Iterate
import NativeGlue.Proofs.Scan.Index

/-!
# Super types found by a walk

A walk records what a depth-first exploration finds: what a class leads to is
explored before the names that stand behind it. `Explores` says so by recursion
on the classes, where the walk keeps one list of pending links. What is found
are the names reached by a path on which every class but the last is in the
index, each of them once. The links of a class lead to its interfaces in the
order in which it declares them, and then to its superclass.

The walk is also followed turn by turn. Every turn takes one from the number of
pending links and of the links that unseen classes may still add, so that the
loop ends, whatever cycles the super types make.

Main statement: `superTypes_resolved`.
-/

namespace NativeGlue
namespace ClassIndex

/-- A name is reached from a class by links through classes of the index. -/
inductive Reaches (index : ClassIndex) (next : ClassFile → List ClassName) :
    ClassFile → ClassName → Prop
  | direct {c : ClassFile} {name : ClassName} (named : name ∈ next c) :
      Reaches index next c name
  | through {c d : ClassFile} {between name : ClassName}
      (named : between ∈ next c) (found : index.get? between = some d)
      (rest : Reaches index next d name) : Reaches index next c name

/--
What a depth-first exploration of some names finds, in order, if some names
were seen before. A name that is new is found, and what its class leads to is
explored before the names behind it.
-/
inductive Explores (index : ClassIndex) (next : ClassFile → List ClassName) :
    Set ClassName → List ClassName → List ClassName → Prop
  | done (seen : Set ClassName) : Explores index next seen [] []
  | again {seen : Set ClassName} {name : ClassName}
      {names found : List ClassName} (known : name ∈ seen)
      (rest : Explores index next seen names found) :
      Explores index next seen (name :: names) found
  | absent {seen : Set ClassName} {name : ClassName}
      {names found : List ClassName} (new : name ∉ seen)
      (missing : index.get? name = none)
      (rest : Explores index next (seen ∪ {name}) names found) :
      Explores index next seen (name :: names) (name :: found)
  | inside {seen : Set ClassName} {name : ClassName} {c : ClassFile}
      {names below found : List ClassName} (new : name ∉ seen)
      (present : index.get? name = some c)
      (inner : Explores index next (seen ∪ {name}) (next c) below)
      (rest : Explores index next (seen ∪ {name} ∪ {n | n ∈ below})
        names found) :
      Explores index next seen (name :: names) (name :: (below ++ found))

section Exploring

variable {index : ClassIndex} {next : ClassFile → List ClassName}
  {seen : Set ClassName} {names found : List ClassName} {c : ClassFile}
  {name : ClassName}

/-- An exploration finds one list. -/
theorem Explores.unique {other : List ClassName}
    (explores : Explores index next seen names found)
    (explores' : Explores index next seen names other) : other = found := by
  induction explores generalizing other with
  | done seen =>
      cases explores'
      rfl
  | again known rest ih =>
      cases explores' with
      | again _ rest' => exact ih rest'
      | absent new _ _ => exact absurd known new
      | inside new _ _ _ => exact absurd known new
  | absent new missing rest ih =>
      cases explores' with
      | again known _ => exact absurd known new
      | absent _ _ rest' => rw [ih rest']
      | inside _ present _ _ => cases missing.symm.trans present
  | inside new present inner rest ihInner ihRest =>
      cases explores' with
      | again known _ => exact absurd known new
      | absent _ missing _ => cases missing.symm.trans present
      | inside _ present' inner' rest' =>
          obtain rfl := Option.some.inj (present'.symm.trans present)
          obtain rfl := ihInner inner'
          rw [ihRest rest']

/-- Names behind others are explored with what these have found seen. -/
theorem Explores.of_append {others : List ClassName}
    (explores : Explores index next seen (names ++ others) found) :
    ∃ first last, Explores index next seen names first ∧
      Explores index next (seen ∪ {n | n ∈ first}) others last ∧
      found = first ++ last := by
  induction names generalizing seen found with
  | nil =>
      refine ⟨[], found, .done seen, ?_, rfl⟩
      simpa using explores
  | cons name names ih =>
      cases explores with
      | again known rest =>
          obtain ⟨first, last, left, right, rfl⟩ := ih rest
          exact ⟨first, last, .again known left, right, rfl⟩
      | absent new missing rest =>
          obtain ⟨first, last, left, right, rfl⟩ := ih rest
          refine ⟨name :: first, last, .absent new missing left, ?_, rfl⟩
          convert right using 1
          ext n
          simp only [List.mem_cons, Set.mem_union, Set.mem_ofPred_eq,
            Set.mem_singleton_iff]
          tauto
      | inside new present inner rest =>
          rename_i below _
          obtain ⟨first, last, left, right, rfl⟩ := ih rest
          refine ⟨name :: (below ++ first), last,
            .inside new present inner left, ?_, by simp⟩
          convert right using 1
          ext n
          simp only [List.mem_cons, List.mem_append, Set.mem_union,
            Set.mem_ofPred_eq, Set.mem_singleton_iff]
          tauto

/-- What is found is new, and found once. -/
theorem Explores.nodup (explores : Explores index next seen names found) :
    found.Nodup ∧ ∀ n ∈ found, n ∉ seen := by
  induction explores with
  | done seen => simp
  | again known rest ih => exact ih
  | absent new missing rest ih =>
      obtain ⟨once, fresh⟩ := ih
      simp only [Set.mem_union, Set.mem_singleton_iff, not_or] at fresh
      exact ⟨List.nodup_cons.mpr ⟨fun member => (fresh _ member).2 rfl, once⟩,
        List.forall_mem_cons.mpr ⟨new, fun n member => (fresh n member).1⟩⟩
  | inside new present inner rest ihInner ihRest =>
      obtain ⟨onceBelow, freshBelow⟩ := ihInner
      obtain ⟨once, fresh⟩ := ihRest
      simp only [Set.mem_singleton_iff, not_or, Set.mem_union,
        Set.mem_ofPred_eq] at freshBelow fresh
      constructor
      · rw [List.nodup_cons, List.mem_append, not_or]
        exact ⟨⟨fun member => (freshBelow _ member).2 rfl,
          fun member => (fresh _ member).1.2 rfl⟩,
          onceBelow.append once fun n left right => (fresh n right).2 left⟩
      · rw [List.forall_mem_cons]
        refine ⟨new, fun n member => ?_⟩
        rcases List.mem_append.mp member with left | right
        · exact (freshBelow n left).1
        · exact (fresh n right).1.1

/-- What is found is one of the names, or reached from the class of one. -/
theorem Explores.sound (explores : Explores index next seen names found) :
    ∀ n ∈ found, n ∈ names ∨ ∃ m ∈ names, ∃ c, index.get? m = some c ∧
      Reaches index next c n := by
  induction explores with
  | done seen => simp
  | again known rest ih =>
      intro n member
      rcases ih n member with among | ⟨m, among, reached⟩
      · exact .inl (List.mem_cons_of_mem _ among)
      · exact .inr ⟨m, List.mem_cons_of_mem _ among, reached⟩
  | absent new missing rest ih =>
      intro n member
      rcases List.mem_cons.mp member with rfl | member
      · exact .inl List.mem_cons_self
      · rcases ih n member with among | ⟨m, among, reached⟩
        · exact .inl (List.mem_cons_of_mem _ among)
        · exact .inr ⟨m, List.mem_cons_of_mem _ among, reached⟩
  | inside new present inner rest ihInner ihRest =>
      intro n member
      rcases List.mem_cons.mp member with rfl | member
      · exact .inl List.mem_cons_self
      · rcases List.mem_append.mp member with left | right
        · refine .inr ⟨_, List.mem_cons_self, _, present, ?_⟩
          rcases ihInner n left with among | ⟨m, among, d, found, reached⟩
          · exact .direct among
          · exact .through among found reached
        · rcases ihRest n right with among | ⟨m, among, reached⟩
          · exact .inl (List.mem_cons_of_mem _ among)
          · exact .inr ⟨m, List.mem_cons_of_mem _ among, reached⟩

/-- No name is left out, and nothing that a found class leads to. -/
theorem Explores.closed (explores : Explores index next seen names found) :
    (∀ n ∈ names, n ∈ seen ∨ n ∈ found) ∧
      ∀ m ∈ found, ∀ c, index.get? m = some c →
        ∀ n ∈ next c, n ∈ seen ∨ n ∈ found := by
  induction explores with
  | done seen => simp
  | again known rest ih =>
      exact ⟨List.forall_mem_cons.mpr ⟨.inl known, ih.1⟩, ih.2⟩
  | absent new missing rest ih =>
      obtain ⟨all, inner⟩ := ih
      simp only [Set.mem_union, Set.mem_singleton_iff] at all inner
      refine ⟨fun n member => ?_, fun m member c present n named => ?_⟩
      · have behind := all n
        grind
      · have below := inner m
        grind
  | inside new present inner rest ihInner ihRest =>
      simp only [Set.mem_singleton_iff, Set.mem_union, Set.mem_ofPred_eq]
        at ihInner ihRest
      obtain ⟨allBelow, innerBelow⟩ := ihInner
      obtain ⟨all, inner⟩ := ihRest
      refine ⟨fun n member => ?_, fun m member c present' n named => ?_⟩
      · have behind := all n
        grind
      · -- The class is the one explored, one below it, or one behind it.
        have own := allBelow n
        have below := innerBelow m
        have behind := inner m
        grind

/-- From what a class leads to, exactly what it reaches is found. -/
theorem Explores.mem_iff (explores : Explores index next ∅ (next c) found) :
    name ∈ found ↔ Reaches index next c name := by
  constructor
  · intro member
    rcases explores.sound name member with named | ⟨m, named, d, present, rest⟩
    · exact .direct named
    · exact .through named present rest
  · obtain ⟨all, inner⟩ := explores.closed
    simp only [Set.mem_empty_iff_false, false_or] at all inner
    have reaches : ∀ {d : ClassFile}, Reaches index next d name →
        (∀ n ∈ next d, n ∈ found) → name ∈ found := by
      intro d reached
      induction reached with
      | direct named => exact fun all => all _ named
      | through named present rest ih =>
          exact fun all => ih (inner _ (all _ named) _ present)
    exact fun reached => reaches reached all

end Exploring

section Turns

variable {index : ClassIndex} {next : ClassFile → List ClassName}

/-- A walk is an exploration of the names that its links lead to. -/
theorem explores_walk (index : ClassIndex)
    (next : ClassFile → List ClassName) (seen : List ClassName)
    (pending : List Link) :
    Explores index next {n | n ∈ seen} (pending.map Link.target)
      ((index.walk next seen pending).map Link.target) := by
  have oneMore : ∀ (seen : List ClassName) (name : ClassName),
      {n | n ∈ name :: seen} = {n | n ∈ seen} ∪ {name} := by
    intro seen name
    ext n
    simp
  induction seen, pending using walk.induct index next with
  | case1 seen =>
      rw [walk]
      exact .done _
  | case2 seen link rest visited ih =>
      rw [walk_of_seen visited, List.map_cons]
      exact .again (by simpa using visited) ih
  | case3 seen link rest new c found ih =>
      rw [oneMore, List.map_append, List.map_map] at ih
      have targets : (next c).map (Link.target ∘ Link.mk c.name) = next c :=
        List.map_id' _
      rw [targets] at ih
      obtain ⟨below, behind, inner, outer, eq⟩ := ih.of_append
      rw [walk_of_found new found, List.map_cons, List.map_cons, eq]
      exact .inside (by simpa using new) found inner outer
  | case4 seen link rest new missing ih =>
      rw [oneMore] at ih
      rw [walk_of_missing new missing, List.map_cons, List.map_cons]
      exact .absent (by simpa using new) missing ih

/-- A walk under way: what it has seen and recorded, and what is pending. -/
structure Walking where
  seen : List ClassName
  recorded : List Link
  pending : List Link

namespace Walking

/-- One turn: the first pending link is taken, and followed if it is new. -/
def turn (index : ClassIndex) (next : ClassFile → List ClassName)
    (w : Walking) : Walking :=
  match w.pending with
  | [] => w
  | link :: rest =>
      if link.target ∈ w.seen then
        { w with pending := rest }
      else
        { seen := link.target :: w.seen
          recorded := w.recorded ++ [link]
          pending :=
            match index.get? link.target with
            | some c => (next c).map (Link.mk c.name) ++ rest
            | none => rest }

section Steps

variable {seen : List ClassName} {recorded rest : List Link} {link : Link}
  {c : ClassFile}

theorem turn_of_seen (visited : link.target ∈ seen) :
    turn index next ⟨seen, recorded, link :: rest⟩ =
      ⟨seen, recorded, rest⟩ :=
  if_pos visited

theorem turn_of_missing (new : link.target ∉ seen)
    (missing : index.get? link.target = none) :
    turn index next ⟨seen, recorded, link :: rest⟩ =
      ⟨link.target :: seen, recorded ++ [link], rest⟩ := by
  simp [turn, new, missing]

theorem turn_of_found (new : link.target ∉ seen)
    (found : index.get? link.target = some c) :
    turn index next ⟨seen, recorded, link :: rest⟩ =
      ⟨link.target :: seen, recorded ++ [link],
        (next c).map (Link.mk c.name) ++ rest⟩ := by
  simp [turn, new, found]

end Steps

/-- The number of links that classes not seen so far may still add. -/
def toCome (index : ClassIndex) (next : ClassFile → List ClassName)
    (seen : List ClassName) : Nat :=
  ((index.unseen seen).map fun c => (next c).length).sum

/-- The number of turns that are left, at most. -/
def work (index : ClassIndex) (next : ClassFile → List ClassName)
    (w : Walking) : Nat :=
  w.pending.length + toCome index next w.seen

theorem mem_unseen {seen : List ClassName} {c : ClassFile} :
    c ∈ index.unseen seen ↔ c ∈ index.classes ∧ c.name ∉ seen := by
  simp [unseen]

theorem toCome_of_missing {seen : List ClassName} {name : ClassName}
    (missing : index.get? name = none) :
    toCome index next (name :: seen) = toCome index next seen := by
  have same : index.unseen (name :: seen) = index.unseen seen := by
    refine List.filter_congr fun c member => ?_
    have other : c.name ≠ name := by
      rintro rfl
      rw [mem_classes_iff.mp member] at missing
      cases missing
    simp [other]
  rw [toCome, same, toCome]

theorem toCome_of_found {seen : List ClassName} {name : ClassName}
    {c : ClassFile} (new : name ∉ seen) (found : index.get? name = some c) :
    toCome index next seen =
      (next c).length + toCome index next (name :: seen) := by
  obtain ⟨inside, rfl⟩ := get?_eq_some_iff.mp found
  have once (seen : List ClassName) : (index.unseen seen).Nodup :=
    index.nodup_classes.filter _
  have other : c ∉ index.unseen (c.name :: seen) := by
    simp [mem_unseen]
  have perm : (index.unseen seen).Perm
      (c :: index.unseen (c.name :: seen)) := by
    rw [List.perm_ext_iff_of_nodup (once seen)
      (List.nodup_cons.mpr ⟨other, once _⟩)]
    intro d
    rw [List.mem_cons, mem_unseen, mem_unseen, List.mem_cons, not_or]
    constructor
    · rintro ⟨member, fresh⟩
      by_cases same : d.name = c.name
      · rw [mem_classes_iff, same, found] at member
        exact .inl (Option.some.inj member).symm
      · exact .inr ⟨member, same, fresh⟩
    · rintro (rfl | ⟨member, -, fresh⟩)
      · exact ⟨inside, new⟩
      · exact ⟨member, fresh⟩
  rw [toCome, (perm.map _).sum_nat]
  rfl

/-- A turn takes one from the work. -/
theorem work_turn {w : Walking} (busy : w.pending ≠ []) :
    (w.turn index next).work index next + 1 = w.work index next := by
  obtain ⟨seen, recorded, pending⟩ := w
  obtain ⟨link, rest, rfl⟩ := List.exists_cons_of_ne_nil busy
  by_cases visited : link.target ∈ seen
  · simp only [turn_of_seen visited, work, List.length_cons]
    omega
  · cases found : index.get? link.target with
    | none =>
        simp only [turn_of_missing visited found, work, List.length_cons,
          toCome_of_missing found]
        omega
    | some c =>
        simp only [turn_of_found visited found, work, List.length_cons,
          List.length_append, List.length_map,
          toCome_of_found visited found]
        omega

/-- A state on the way of the walk that starts with some links. -/
structure IsOnWay (index : ClassIndex) (next : ClassFile → List ClassName)
    (start : List Link) (w : Walking) : Prop where
  /-- What is recorded and what is still walked make up the whole walk. -/
  whole : w.recorded ++ index.walk next w.seen w.pending =
    index.walk next [] start
  seen_iff : ∀ name, name ∈ w.seen ↔ name ∈ w.recorded.map Link.target

theorem isOnWay_start (start : List Link) :
    IsOnWay index next start ⟨[], [], start⟩ :=
  ⟨rfl, fun _ => Iff.rfl⟩

theorem IsOnWay.turn {start : List Link} {w : Walking}
    (onWay : IsOnWay index next start w) :
    IsOnWay index next start (w.turn index next) := by
  obtain ⟨seen, recorded, pending⟩ := w
  obtain ⟨whole, seen_iff⟩ := onWay
  simp only at whole seen_iff
  cases pending with
  | nil => exact ⟨whole, seen_iff⟩
  | cons link rest =>
      by_cases visited : link.target ∈ seen
      · rw [walk_of_seen (by simpa using visited)] at whole
        rw [turn_of_seen visited]
        exact ⟨whole, seen_iff⟩
      · have new : ¬ seen.contains link.target = true := by
          simpa using visited
        have records : ∀ name, name ∈ link.target :: seen ↔
            name ∈ (recorded ++ [link]).map Link.target := by
          intro name
          simp [seen_iff, or_comm]
        cases found : index.get? link.target with
        | none =>
            rw [walk_of_missing new found] at whole
            rw [turn_of_missing visited found]
            exact ⟨(List.append_assoc ..).trans whole, records⟩
        | some c =>
            rw [walk_of_found new found] at whole
            rw [turn_of_found visited found]
            exact ⟨(List.append_assoc ..).trans whole, records⟩

theorem IsOnWay.iterate {start : List Link} {w : Walking}
    (onWay : IsOnWay index next start w) (n : Nat) :
    IsOnWay index next start ((Walking.turn index next)^[n] w) := by
  induction n with
  | zero => exact onWay
  | succ n ih =>
      rw [Function.iterate_succ_apply']
      exact ih.turn

/-- The loop ends: after some turns nothing is pending. -/
theorem exists_pending_eq_nil (index : ClassIndex)
    (next : ClassFile → List ClassName) (w : Walking) :
    ∃ n ≤ w.work index next,
      ((turn index next)^[n] w).pending = [] := by
  induction work : w.work index next generalizing w with
  | zero =>
      refine ⟨0, le_rfl, List.length_eq_zero_iff.mp ?_⟩
      rw [Walking.work] at work
      exact (Nat.add_eq_zero_iff.mp work).1
  | succ k ih =>
      by_cases idle : w.pending = []
      · exact ⟨0, Nat.zero_le _, idle⟩
      · have less : (w.turn index next).work index next + 1 =
            w.work index next := work_turn idle
        obtain ⟨n, few, ended⟩ := ih (w.turn index next) (by omega)
        exact ⟨n + 1, by omega, ended⟩

/-- What a turn records is the link that it takes. -/
theorem mem_recorded_turn {w : Walking} {link : Link}
    (member : link ∈ (w.turn index next).recorded) :
    link ∈ w.recorded ∨ w.pending.head? = some link := by
  obtain ⟨seen, recorded, pending⟩ := w
  cases pending with
  | nil => exact .inl member
  | cons taken rest =>
      have only : link ∈ recorded ++ [taken] →
          link ∈ recorded ∨ some taken = some link := by
        rw [List.mem_append, List.mem_singleton]
        exact Or.imp_right fun same => congrArg some same.symm
      by_cases visited : taken.target ∈ seen
      · rw [turn_of_seen visited] at member
        exact .inl member
      · cases found : index.get? taken.target with
        | none =>
            rw [turn_of_missing visited found] at member
            exact only member
        | some c =>
            rw [turn_of_found visited found] at member
            exact only member

/-- A link is recorded in the turn that takes it. -/
theorem exists_of_mem_recorded {w : Walking} {link : Link} {n : Nat}
    (member : link ∈ ((turn index next)^[n] w).recorded) :
    link ∈ w.recorded ∨
      ∃ k < n, ((turn index next)^[k] w).pending.head? = some link := by
  induction n with
  | zero => exact .inl member
  | succ n ih =>
      rw [Function.iterate_succ_apply'] at member
      rcases mem_recorded_turn member with before | taken
      · rcases ih before with before | ⟨k, early, taken⟩
        · exact .inl before
        · exact .inr ⟨k, by omega, taken⟩
      · exact .inr ⟨n, by omega, taken⟩

/-- A link that is taken leads to a name that the walk records. -/
theorem IsOnWay.mem_of_head? {start : List Link} {w : Walking} {link : Link}
    (onWay : IsOnWay index next start w)
    (taken : w.pending.head? = some link) :
    link.target ∈ (index.walk next [] start).map Link.target := by
  obtain ⟨seen, recorded, pending⟩ := w
  obtain ⟨whole, seen_iff⟩ := onWay
  simp only at whole seen_iff
  obtain ⟨rest, rfl⟩ := List.head?_eq_some_iff.mp taken
  rw [← whole, List.map_append, List.mem_append]
  by_cases visited : link.target ∈ seen
  · exact .inl ((seen_iff _).mp visited)
  · have new : ¬ seen.contains link.target = true := by
      simpa using visited
    refine .inr (List.mem_map_of_mem ?_)
    cases found : index.get? link.target with
    | none =>
        rw [walk_of_missing new found]
        exact List.mem_cons_self
    | some c =>
        rw [walk_of_found new found]
        exact List.mem_cons_self

end Walking

end Turns

section SuperTypes

variable {index : ClassIndex} {c : ClassFile} {name : ClassName}

/-- What a class declares: its interfaces in their order, then its superclass. -/
def declaredTypes (c : ClassFile) : List ClassName :=
  match c.superclass with
  | none => c.interfaces
  | some superclass => c.interfaces ++ [superclass]

theorem superTypes_eq : superTypes = declaredTypes := by
  funext c
  rw [superTypes, declaredTypes]
  cases c.superclass with
  | none => exact List.append_nil _
  | some superclass => rfl

theorem explores_ancestors (index : ClassIndex) (c : ClassFile) :
    Explores index declaredTypes ∅ (declaredTypes c) (index.ancestors c) := by
  have explores := explores_walk index declaredTypes []
    ((declaredTypes c).map (Link.mk c.name))
  have targets : ((declaredTypes c).map (Link.mk c.name)).map Link.target =
      declaredTypes c := by
    rw [List.map_map]
    exact List.map_id' _
  have nothing : {n : ClassName | n ∈ ([] : List ClassName)} = ∅ := by
    ext n
    simp
  rw [targets, nothing] at explores
  rwa [ancestors, superTypes_eq]

theorem implements_iff :
    index.implements c name = true ↔ Reaches index declaredTypes c name := by
  rw [implements, List.contains_iff_mem, (explores_ancestors index c).mem_iff]

theorem unresolved_eq (index : ClassIndex) (c : ClassFile) :
    index.unresolved c = (index.ancestors c).filter fun name =>
      name ∉ index.names ∧ name ≠ ⟨"java/lang/Object"⟩ := by
  refine List.filter_congr fun name _ => ?_
  have root : ClassName.object = ⟨"java/lang/Object"⟩ := rfl
  rw [← root]
  cases found : index.get? name <;> simp [mem_names_iff, found]

/-- The loop that walks the super types of a class, before its first turn. -/
def Walking.ofClass (c : ClassFile) : Walking :=
  ⟨[], [], (declaredTypes c).map (Link.mk c.name)⟩

/-- The loop meets a name if it takes a link that leads there. -/
def Walking.Meets (w : Walking) (name : ClassName) : Prop :=
  ∃ link ∈ w.pending.head?, link.target = name

theorem isOnWay_ofClass (index : ClassIndex) (c : ClassFile) (n : Nat) :
    Walking.IsOnWay index declaredTypes
      ((declaredTypes c).map (Link.mk c.name))
      ((Walking.turn index declaredTypes)^[n] (.ofClass c)) :=
  (Walking.isOnWay_start _).iterate n

theorem work_ofClass (index : ClassIndex) (c : ClassFile) :
    (Walking.ofClass c).work index declaredTypes =
      (declaredTypes c).length +
        (index.classes.map fun d => (declaredTypes d).length).sum := by
  have all : index.unseen [] = index.classes := by
    simp [unseen]
  rw [Walking.work, Walking.ofClass, Walking.toCome, all, List.length_map]

/-- A loop with nothing pending has recorded the super types. -/
theorem recorded_of_ended {n : Nat}
    (ended : ((Walking.turn index declaredTypes)^[n]
      (.ofClass c)).pending = []) :
    ((Walking.turn index declaredTypes)^[n] (.ofClass c)).recorded.map
      Link.target = index.ancestors c := by
  have whole := (isOnWay_ofClass index c n).whole
  rw [ended, walk, List.append_nil] at whole
  rw [whole, ancestors, superTypes_eq]

/-- The loop meets the names of super types, and no others. -/
theorem exists_meets_iff {n : Nat}
    (ended : ((Walking.turn index declaredTypes)^[n]
      (.ofClass c)).pending = []) :
    (∃ k < n, ((Walking.turn index declaredTypes)^[k]
      (.ofClass c)).Meets name) ↔ name ∈ index.ancestors c := by
  constructor
  · rintro ⟨k, -, link, taken, rfl⟩
    have among := (isOnWay_ofClass index c k).mem_of_head? taken
    rwa [ancestors, superTypes_eq]
  · intro member
    rw [← recorded_of_ended ended] at member
    obtain ⟨link, recorded, rfl⟩ := List.mem_map.mp member
    rcases Walking.exists_of_mem_recorded recorded with before | found
    · cases before
    · obtain ⟨k, early, taken⟩ := found
      exact ⟨k, early, link, taken, rfl⟩

/--
A class implements what it reaches through classes of the index, from each
class to its interfaces and its superclass. Its unresolved super types are the
names reached that the index lacks, but for the root class, each once, as a
depth-first exploration finds them that takes the interfaces of a class in
their order and then its superclass. The loop behind both ends after a bounded
number of turns, and has then met exactly what the class implements.
-/
theorem superTypes_resolved (index : ClassIndex) (c : ClassFile) :
    (∀ name, index.implements c name = true ↔
      Reaches index declaredTypes c name) ∧
    (∀ name, name ∈ index.unresolved c ↔
      Reaches index declaredTypes c name ∧ name ∉ index.names ∧
        name ≠ ⟨"java/lang/Object"⟩) ∧
    (index.unresolved c).Nodup ∧
    ∃ found, (∀ order,
        Explores index declaredTypes ∅ (declaredTypes c) order ↔
          order = found) ∧
      (index.unresolved c = found.filter fun name =>
        name ∉ index.names ∧ name ≠ ⟨"java/lang/Object"⟩) ∧
      ∃ n ≤ (declaredTypes c).length +
          (index.classes.map fun d => (declaredTypes d).length).sum,
        ((Walking.turn index declaredTypes)^[n] (.ofClass c)).pending = [] ∧
        ((Walking.turn index declaredTypes)^[n] (.ofClass c)).recorded.map
          Link.target = found ∧
        ∀ name, index.implements c name = true ↔
          ∃ k < n, ((Walking.turn index declaredTypes)^[k]
            (.ofClass c)).Meets name := by
  have explores := explores_ancestors index c
  refine ⟨fun name => implements_iff, ?_, ?_, index.ancestors c, ?_,
    unresolved_eq index c, ?_⟩
  · intro name
    rw [unresolved_eq, List.mem_filter, explores.mem_iff, decide_eq_true_eq]
  · exact explores.nodup.1.filter _
  · exact fun order => ⟨explores.unique, fun same => same ▸ explores⟩
  · obtain ⟨n, few, ended⟩ := Walking.exists_pending_eq_nil index
      declaredTypes (.ofClass c)
    rw [work_ofClass] at few
    refine ⟨n, few, ended, recorded_of_ended ended, fun name => ?_⟩
    rw [exists_meets_iff ended, implements, List.contains_iff_mem]

/-- A class file with super types only. -/
def classOf (name : String) (interfaces : List String)
    (superclass : String) : ClassFile :=
  { (default : ClassFile) with
    name := ⟨name⟩
    interfaces := interfaces.map ClassName.mk
    superclass := some ⟨superclass⟩ }

/-- A class that is the superclass of its superclass. -/
def knotted : ClassFile := classOf "a/A" ["a/I", "a/X"] "a/B"

def superclassOfKnotted : ClassFile := classOf "a/B" ["a/J"] "a/A"

/-- An interface that declares itself. -/
def ownInterface : ClassFile := classOf "a/I" ["a/I"] "java/lang/Object"

/-- An index with these three, and none of the other names that they declare. -/
def knot : ClassIndex :=
  ⟨[knotted, superclassOfKnotted, ownInterface], by decide⟩

/-- Interfaces are explored in their order, each with all that it leads to. -/
theorem explores_knot :
    Explores knot declaredTypes ∅ (declaredTypes knotted)
      [⟨"a/I"⟩, ⟨"java/lang/Object"⟩, ⟨"a/X"⟩, ⟨"a/B"⟩, ⟨"a/J"⟩, ⟨"a/A"⟩] := by
  have ownFound : knot.get? ⟨"a/I"⟩ = some ownInterface := rfl
  have superFound : knot.get? ⟨"a/B"⟩ = some superclassOfKnotted := rfl
  have againFound : knot.get? ⟨"a/A"⟩ = some knotted := rfl
  have ownBelow : Explores knot declaredTypes (∅ ∪ {⟨"a/I"⟩})
      [⟨"a/I"⟩, ⟨"java/lang/Object"⟩] [⟨"java/lang/Object"⟩] :=
    .again (by simp) (.absent (by simp) rfl (.done _))
  -- The class is met again, but all that it declares has been seen.
  have againBelow (seen : Set ClassName) (known : ⟨"a/I"⟩ ∈ seen ∧
      ⟨"a/X"⟩ ∈ seen ∧ ⟨"a/B"⟩ ∈ seen) :
      Explores knot declaredTypes seen (declaredTypes knotted) [] :=
    .again known.1 (.again known.2.1 (.again known.2.2 (.done _)))
  have superBelow (seen : Set ClassName) (known : ⟨"a/I"⟩ ∈ seen ∧
      ⟨"a/X"⟩ ∈ seen ∧ ⟨"a/B"⟩ ∈ seen) (new : ⟨"a/J"⟩ ∉ seen)
      (other : ⟨"a/A"⟩ ∉ seen) : Explores knot declaredTypes seen
        (declaredTypes superclassOfKnotted) [⟨"a/J"⟩, ⟨"a/A"⟩] :=
    .absent new rfl (.inside (by simp [other]) againFound
      (againBelow _ (by simp [known])) (.done _))
  exact .inside (by simp) ownFound ownBelow (.absent (by simp) rfl
    (.inside (by simp) superFound
      (superBelow _ (by simp) (by simp) (by simp)) (.done _)))

theorem superTypes_resolved_knot :
    (∀ name, knot.implements knotted name = true ↔ name ∈ [⟨"a/I"⟩,
      ⟨"java/lang/Object"⟩, ⟨"a/X"⟩, ⟨"a/B"⟩, ⟨"a/J"⟩, ⟨"a/A"⟩]) ∧
      knot.implements knotted ⟨"a/K"⟩ = false ∧
      knot.unresolved knotted = [⟨"a/X"⟩, ⟨"a/J"⟩] := by
  obtain ⟨reached, -, -, found, ordered, unresolved, -⟩ :=
    superTypes_resolved knot knotted
  obtain rfl := (ordered _).mp explores_knot
  have implemented := fun name =>
    (reached name).trans explores_knot.mem_iff.symm
  refine ⟨implemented, ?_, unresolved.trans (by decide)⟩
  rw [← Bool.not_eq_true, implemented]
  decide

end SuperTypes

end ClassIndex
end NativeGlue
