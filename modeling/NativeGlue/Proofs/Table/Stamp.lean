import Mathlib.Data.List.Basic
import Mathlib.Data.UInt
import NativeGlue.Proofs.Hash.Chain
import NativeGlue.Table.Basic

/-!
# What the stamp of a table tells

A stamp has the fingerprint of the entries in their order, and that of an entry
is chained from the hashes of four texts. How texts are hashed does not matter
here, so the hash is a parameter; the table's own hash is one instance.

**One change.** Tables that differ in one entry have the same fingerprint just
if these entries have, and entries that differ in one text just if the hashes
of these texts are equal.

**A swap.** Two neighbouring entries can be swapped without a trace just if
their fingerprints agree modulo `2 ^ 62`.
-/

namespace NativeGlue

variable {hash : List UInt8 → UInt64}

/-- The fingerprint of an entry under a given hash. -/
def Entry.fingerprintWith (hash : List UInt8 → UInt64) (e : Entry) :
    Fingerprint :=
  Fingerprint.ofBindingWith hash e.owner.internal e.method e.descriptor
    e.entryPoint

/-- The texts of an entry that are hashed, each with what it is. -/
def Entry.texts (e : Entry) : List (Fingerprint.Domain × String) :=
  [(.className, e.owner.internal), (.method, e.method),
    (.descriptor, e.descriptor), (.entryPoint, e.entryPoint)]

/-- The table of some entries, stamped under a given hash. -/
def Table.buildWith (hash : List UInt8 → UInt64) (version : String)
    (methodsFound classesScanned : Nat) (entries : List Entry) :
    Except EmptyTable Table :=
  if methodsFound = 0 then
    .error ⟨classesScanned⟩
  else
    .ok
      { stamp :=
          { version
            entryCount := min maxEntryCount entries.length
            fingerprint :=
              Fingerprint.empty.chainAll
                (entries.map (Entry.fingerprintWith hash)) }
        entries }

section Change

theorem Fingerprint.ofPart_inj {domain : Fingerprint.Domain}
    {text text' : String} :
    Fingerprint.ofPart hash domain text = .ofPart hash domain text' ↔
      hash (Text.utf8 text) = hash (Text.utf8 text') := by
  rw [← Fingerprint.word_inj]
  exact UInt64.xor_right_inj domain.marker

theorem Entry.fingerprintWith_eq (hash : List UInt8 → UInt64) (e : Entry) :
    e.fingerprintWith hash =
      Fingerprint.empty.chainAll
        (e.texts.map fun x => .ofPart hash x.1 x.2) :=
  rfl

theorem Entry.map_fst_texts (e e' : Entry) :
    e.texts.map Prod.fst = e'.texts.map Prod.fst :=
  rfl

/-- Lists that agree in all places but one, divided there. -/
theorem exists_eq_append_cons {α : Type} {l l' : List α} {i : Nat} {a a' : α}
    (here : l[i]? = some a) (here' : l'[i]? = some a')
    (others : ∀ j, j ≠ i → l[j]? = l'[j]?) :
    ∃ front back, l = front ++ a :: back ∧ l' = front ++ a' :: back := by
  obtain ⟨bound, rfl⟩ := List.getElem?_eq_some_iff.mp here
  obtain ⟨bound', rfl⟩ := List.getElem?_eq_some_iff.mp here'
  have front : l.take i = l'.take i := by
    refine List.ext_getElem? fun j => ?_
    by_cases before : j < i
    · rw [List.getElem?_take_of_lt before, List.getElem?_take_of_lt before,
        others j (Nat.ne_of_lt before)]
    · rw [List.getElem?_take_eq_none (Nat.le_of_not_lt before),
        List.getElem?_take_eq_none (Nat.le_of_not_lt before)]
  have back : l.drop (i + 1) = l'.drop (i + 1) := by
    refine List.ext_getElem? fun j => ?_
    rw [List.getElem?_drop, List.getElem?_drop, others _ (by omega)]
  refine ⟨l.take i, l.drop (i + 1), ?_, ?_⟩
  · rw [← List.drop_eq_getElem_cons bound, List.take_append_drop]
  · rw [front, back, ← List.drop_eq_getElem_cons bound',
      List.take_append_drop]

/-- Chains over lists that agree in all places but one. -/
theorem chainAll_map_eq_iff {α : Type} {l l' : List α} {i : Nat} {a a' : α}
    (here : l[i]? = some a) (here' : l'[i]? = some a')
    (others : ∀ j, j ≠ i → l[j]? = l'[j]?) (f : Fingerprint)
    (link : α → Fingerprint) :
    f.chainAll (l.map link) = f.chainAll (l'.map link) ↔ link a = link a' := by
  obtain ⟨front, back, rfl, rfl⟩ := exists_eq_append_cons here here' others
  simp only [List.map_append, List.map_cons, Fingerprint.chainAll_replace_iff]

/-- A table is built of any entries once a method was found. -/
theorem Table.exists_buildWith (hash : List UInt8 → UInt64)
    (version : String) {found : Nat} (some : 0 < found) (scanned : Nat)
    (entries : List Entry) :
    ∃ t, Table.buildWith hash version found scanned entries = .ok t ∧
      t.stamp.fingerprint =
        Fingerprint.empty.chainAll
          (entries.map (Entry.fingerprintWith hash)) := by
  rw [Table.buildWith, if_neg (Nat.ne_of_gt some)]
  exact ⟨_, rfl, rfl⟩

end Change

/--
Let texts be hashed by any function; the table's own is the instance for XXH64.
Tables whose entries agree in all places but one are stamped with the same
fingerprint just if the two entries there have the same. Entries that agree in
all but one of owner, method, descriptor and entry point have the same
fingerprint just if these two texts have the same hash.
-/
theorem stamp_tells_one_change :
    (Table.build = Table.buildWith Hash.xxh64 ∧
      Entry.fingerprint = Entry.fingerprintWith Hash.xxh64) ∧
    ∀ hash : List UInt8 → UInt64,
      (∀ (es es' : List Entry) (i : Nat) (e e' : Entry),
        es[i]? = some e → es'[i]? = some e' →
        (∀ j, j ≠ i → es[j]? = es'[j]?) →
        ∀ (version version' : String) (found found' scanned scanned' : Nat),
          0 < found → 0 < found' →
          ∃ t t',
            Table.buildWith hash version found scanned es = .ok t ∧
            Table.buildWith hash version' found' scanned' es' = .ok t' ∧
            (t.stamp.fingerprint = t'.stamp.fingerprint ↔
              e.fingerprintWith hash = e'.fingerprintWith hash)) ∧
      ∀ (e e' : Entry) (i : Nat) (x x' : Fingerprint.Domain × String),
        e.texts[i]? = some x → e'.texts[i]? = some x' →
        (∀ j, j ≠ i → e.texts[j]? = e'.texts[j]?) →
          (e.fingerprintWith hash = e'.fingerprintWith hash ↔
            hash (Text.utf8 x.2) = hash (Text.utf8 x'.2)) := by
  refine ⟨⟨rfl, rfl⟩, fun hash => ⟨?_, ?_⟩⟩
  · intro es es' i e e' here here' others
      version version' found found' scanned scanned' some some'
    obtain ⟨t, built, stamped⟩ :=
      Table.exists_buildWith hash version some scanned es
    obtain ⟨t', built', stamped'⟩ :=
      Table.exists_buildWith hash version' some' scanned' es'
    refine ⟨t, t', built, built', ?_⟩
    rw [stamped, stamped']
    exact chainAll_map_eq_iff here here' others _ _
  · intro e e' i x x' here here' others
    have same : x.1 = x'.1 := by
      have firsts := congrArg (·[i]?) (Entry.map_fst_texts e e')
      simpa [here, here'] using firsts
    rw [Entry.fingerprintWith_eq, Entry.fingerprintWith_eq,
      chainAll_map_eq_iff here here' others, same, Fingerprint.ofPart_inj]

/-- The entry of a static method without parameters. -/
def entryOf (method : String) : Entry :=
  ⟨⟨"a/B"⟩, method, "()V", "Java_a_B_f",
    ⟨"Java_a_B_f", "void", ["JNIEnv*", "jclass"]⟩⟩

/-- Entries of three methods, of which the second one is to be renamed. -/
def threeEntries (second : String) : List Entry :=
  [entryOf "f", entryOf second, entryOf "h"]

/-- A rename shows in the stamp, but not where lengths are the hashes. -/
theorem stamp_tells_renamed_entry :
    (∃ t t',
      Table.build "0.1.0" 3 1 (threeEntries "g") = .ok t ∧
      Table.build "0.1.0" 3 1 (threeEntries "k") = .ok t' ∧
      t.stamp.fingerprint ≠ t'.stamp.fingerprint) ∧
    (∃ t t',
      Table.buildWith (fun bytes => .ofNat bytes.length) "0.1.0" 3 1
          (threeEntries "g") = .ok t ∧
      Table.buildWith (fun bytes => .ofNat bytes.length) "0.1.0" 3 1
          (threeEntries "k") = .ok t' ∧
      t.stamp.fingerprint = t'.stamp.fingerprint) ∧
    (entryOf "g").fingerprint ≠ (entryOf "k").fingerprint := by
  obtain ⟨⟨build, fingerprint⟩, told⟩ := stamp_tells_one_change
  have others : ∀ j, j ≠ 1 →
      (threeEntries "g")[j]? = (threeEntries "k")[j]? := by
    rintro (_ | _ | j) other
    · rfl
    · exact absurd rfl other
    · rfl
  have texts : ∀ j, j ≠ 1 →
      (entryOf "g").texts[j]? = (entryOf "k").texts[j]? := by
    rintro (_ | _ | j) other
    · rfl
    · exact absurd rfl other
    · rfl
  have renamed (hash : List UInt8 → UInt64) :
      (entryOf "g").fingerprintWith hash = (entryOf "k").fingerprintWith hash ↔
        hash (Text.utf8 "g") = hash (Text.utf8 "k") :=
    (told hash).2 _ _ 1 _ _ rfl rfl texts
  have changed (hash : List UInt8 → UInt64) :=
    (told hash).1 (threeEntries "g") (threeEntries "k") 1 _ _ rfl rfl others
      "0.1.0" "0.1.0" 3 3 1 1 (by decide) (by decide)
  have hashed : Hash.xxh64 (Text.utf8 "g") ≠ Hash.xxh64 (Text.utf8 "k") := by
    decide +kernel
  refine ⟨?_, ?_, ?_⟩
  · obtain ⟨t, t', built, built', iff⟩ := changed Hash.xxh64
    rw [← build] at built built'
    exact ⟨t, t', built, built', fun eq => hashed ((renamed _).mp (iff.mp eq))⟩
  · obtain ⟨t, t', built, built', iff⟩ :=
      changed fun bytes => .ofNat bytes.length
    exact ⟨t, t', built, built', iff.mpr ((renamed _).mpr (by decide))⟩
  · rw [fingerprint]
    exact fun eq => hashed ((renamed _).mp eq)

/--
Two fingerprints that are chained one after the other, onto any fingerprint and
before any others, can be swapped without a trace just if they agree modulo
`2 ^ 62`. So a table keeps its stamp under a swap of two neighbouring entries
just if their fingerprints agree modulo `2 ^ 62`.
-/
theorem swap_unnoticed_iff :
    (∀ (p x y : Fingerprint) (links : List Fingerprint),
      ((p.chain x).chain y).chainAll links =
          ((p.chain y).chain x).chainAll links ↔
        x.word.toNat ≡ y.word.toNat [MOD 2 ^ 62]) ∧
    ∀ (front back : List Entry) (e e' : Entry) (version : String)
      (found scanned : Nat), 0 < found →
      ∃ t t',
        Table.build version found scanned (front ++ e :: e' :: back) = .ok t ∧
        Table.build version found scanned (front ++ e' :: e :: back) = .ok t' ∧
        (t.stamp = t'.stamp ↔
          e.fingerprint.word.toNat ≡ e'.fingerprint.word.toNat
            [MOD 2 ^ 62]) := by
  constructor
  · intro p x y links
    rw [Fingerprint.chainAll_left_inj, Fingerprint.chain_chain_comm_iff]
  · intro front back e e' version found scanned some
    rw [Table.build, Table.build, if_neg (Nat.ne_of_gt some),
      if_neg (Nat.ne_of_gt some)]
    refine ⟨_, _, rfl, rfl, ?_⟩
    simp only [Table.stampOf, Stamp.mk.injEq, List.length_append,
      List.length_cons, List.map_append, List.map_cons, true_and,
      Fingerprint.chainAll_swap_iff]

/-- Words that differ in the highest bit alone can be swapped, others not. -/
theorem swap_unnoticed_highest_bit :
    ((Fingerprint.empty.chain ⟨1⟩).chain ⟨1 + 0x8000000000000000⟩).chainAll
          [⟨7⟩] =
        ((Fingerprint.empty.chain ⟨1 + 0x8000000000000000⟩).chain ⟨1⟩).chainAll
          [⟨7⟩] ∧
      ∃ t t',
        Table.build "0.1.0" 3 1 [entryOf "f", entryOf "g", entryOf "h"] =
          .ok t ∧
        Table.build "0.1.0" 3 1 [entryOf "f", entryOf "h", entryOf "g"] =
          .ok t' ∧
        t.stamp ≠ t'.stamp := by
  obtain ⟨chains, tables⟩ := swap_unnoticed_iff
  obtain ⟨t, t', built, built', iff⟩ :=
    tables [entryOf "f"] [] (entryOf "g") (entryOf "h") "0.1.0" 3 1 (by decide)
  have apart : ¬ (entryOf "g").fingerprint.word.toNat ≡
      (entryOf "h").fingerprint.word.toNat [MOD 2 ^ 62] := by
    decide +kernel
  exact ⟨(chains _ _ _ _).mpr (by decide), t, t', built, built',
    fun eq => apart (iff.mp eq)⟩

end NativeGlue
