import NativeGlue.Proofs.ClassFile.Forms
import NativeGlue.Proofs.ClassFile.WrittenAnnotations

/-!
# Annotations are decoded up to a depth

An annotation is laid out as its type and its elements, a value as its tag and
the indices at which its constants stand. The elements of an annotation stand
at depth zero, and what stands inside a value is one deeper than the value.
Values are read back if none stands at depth 32 or deeper; if some do, reading
fails at the first of them.

Main statement: `readAll_of_isListLaidOut`.
-/

namespace NativeGlue

open NativeGlue.Parser

namespace ElementValue

/-- The tag and the constant of a value that refers to one constant. -/
def single? : ElementValue → Option (Char × Constant)
  | byte value => some ('B', .integer value.toInt32)
  | char value => some ('C', .integer value.toUInt32.toInt32)
  | short value => some ('S', .integer value.toInt32)
  | int value => some ('I', .integer value)
  | boolean value => some ('Z', .integer (if value then 1 else 0))
  | long value => some ('J', .long value)
  | float bits => some ('F', .float bits)
  | double bits => some ('D', .double bits)
  | string text => some ('s', .utf8 text)
  | classLiteral descriptor => some ('c', .utf8 descriptor)
  | enumConstant .. | nested .. | array _ => none

/-- The byte of a tag. -/
def tagByte (tag : Char) : UInt8 := UInt8.ofNat tag.toNat

mutual

/-- The bytes of a value: its tag, and what the tag has behind it. -/
inductive IsLaidOut (pool : ConstantPool) : ElementValue → List UInt8 → Prop
  | single {v : ElementValue} {tag : Char} {constant : Constant} {i : UInt16}
      (kind : v.single? = some (tag, constant))
      (stands : pool.get i.toNat = .ok constant) :
      IsLaidOut pool v (tagByte tag :: Bytes.ofNumber 2 i.toNat)
  | enumConstant {type constant : String} {i j : UInt16}
      (standsType : pool.get i.toNat = .ok (.utf8 type))
      (stands : pool.get j.toNat = .ok (.utf8 constant)) :
      IsLaidOut pool (.enumConstant type constant)
        (tagByte 'e' ::
          (Bytes.ofNumber 2 i.toNat ++ Bytes.ofNumber 2 j.toNat))
  | nested {type : String} {elements : List (String × ElementValue)}
      {visible : Bool} {inside : List UInt8}
      (laid : PartsLaidOut pool type elements inside) :
      IsLaidOut pool (.nested type elements visible) (tagByte '@' :: inside)
  | array {items : List ElementValue} {inside : List UInt8}
      (few : items.length < 65536) (laid : ItemsLaidOut pool items inside) :
      IsLaidOut pool (.array items)
        (tagByte '[' :: (Bytes.ofNumber 2 items.length ++ inside))

/-- The bytes of the items of an array. -/
inductive ItemsLaidOut (pool : ConstantPool) :
    List ElementValue → List UInt8 → Prop
  | nil : ItemsLaidOut pool [] []
  | cons {v : ElementValue} {items : List ElementValue} {a b : List UInt8}
      (first : IsLaidOut pool v a) (rest : ItemsLaidOut pool items b) :
      ItemsLaidOut pool (v :: items) (a ++ b)

/-- The bytes of elements, each with the index of its name in front. -/
inductive ElementsLaidOut (pool : ConstantPool) :
    List (String × ElementValue) → List UInt8 → Prop
  | nil : ElementsLaidOut pool [] []
  | cons {name : String} {v : ElementValue}
      {elements : List (String × ElementValue)} {i : UInt16}
      {a b : List UInt8} (stands : pool.get i.toNat = .ok (.utf8 name))
      (first : IsLaidOut pool v a) (rest : ElementsLaidOut pool elements b) :
      ElementsLaidOut pool ((name, v) :: elements)
        (Bytes.ofNumber 2 i.toNat ++ a ++ b)

/-- The bytes of an annotation: its type, and its elements with their count. -/
inductive PartsLaidOut (pool : ConstantPool) :
    String → List (String × ElementValue) → List UInt8 → Prop
  | intro {type : String} {elements : List (String × ElementValue)}
      {i : UInt16} {inside : List UInt8}
      (stands : pool.get i.toNat = .ok (.utf8 type))
      (few : elements.length < 65536)
      (laid : ElementsLaidOut pool elements inside) :
      PartsLaidOut pool type elements (Bytes.ofNumber 2 i.toNat ++
        (Bytes.ofNumber 2 elements.length ++ inside))

end

mutual

/-- The value with all annotations inside it of one visibility. -/
def withVisible (visible : Bool) : ElementValue → ElementValue
  | nested type elements _ =>
      nested type (elementsWithVisible visible elements) visible
  | array items => array (itemsWithVisible visible items)
  | other => other

/-- The items with all annotations inside them of one visibility. -/
def itemsWithVisible (visible : Bool) :
    List ElementValue → List ElementValue
  | [] => []
  | v :: items => v.withVisible visible :: itemsWithVisible visible items

/-- The elements with all annotations inside them of one visibility. -/
def elementsWithVisible (visible : Bool) :
    List (String × ElementValue) → List (String × ElementValue)
  | [] => []
  | (name, v) :: elements =>
      (name, v.withVisible visible) :: elementsWithVisible visible elements

end

mutual

/-- The number of bytes of a value. -/
def size : ElementValue → Nat
  | nested _ elements _ => 5 + elementsSize elements
  | array items => 3 + itemsSize items
  | enumConstant .. => 5
  | _ => 3

/-- The number of bytes of items. -/
def itemsSize : List ElementValue → Nat
  | [] => 0
  | v :: items => v.size + itemsSize items

/-- The number of bytes of elements. -/
def elementsSize : List (String × ElementValue) → Nat
  | [] => 0
  | (_, v) :: elements => 2 + v.size + elementsSize elements

end

end ElementValue

/-- Where a value starts, and how deep it stands. -/
structure Place where
  offset : Nat
  depth : Nat
deriving DecidableEq, Repr

/-- Places that ascend, from an offset on and before another one. -/
structure Ascend (start stop : Nat) (places : List Place) : Prop where
  ordered : places.Pairwise fun p q => p.offset < q.offset
  within : ∀ p ∈ places, start ≤ p.offset ∧ p.offset < stop

theorem Ascend.nil (start stop : Nat) : Ascend start stop [] :=
  ⟨.nil, by simp⟩

theorem Ascend.mono {start start' stop stop' : Nat} {ps : List Place}
    (ascend : Ascend start stop ps) (le : start' ≤ start)
    (le' : stop ≤ stop') : Ascend start' stop' ps where
  ordered := ascend.ordered
  within p member :=
    ⟨Nat.le_trans le (ascend.within p member).1,
      Nat.lt_of_lt_of_le (ascend.within p member).2 le'⟩

theorem Ascend.append {start middle stop : Nat} {ps qs : List Place}
    (first : Ascend start middle ps) (second : Ascend middle stop qs)
    (le : start ≤ middle) (le' : middle ≤ stop) :
    Ascend start stop (ps ++ qs) where
  ordered := by
    refine List.pairwise_append.mpr ⟨first.ordered, second.ordered, ?_⟩
    intro p inside q behind
    exact Nat.lt_of_lt_of_le (first.within p inside).2
      (second.within q behind).1
  within p member := by
    rcases List.mem_append.mp member with inside | behind
    · exact (first.mono (Nat.le_refl _) le').within p inside
    · exact (second.mono le (Nat.le_refl _)).within p behind

/-- The place of a value stands before those of what is inside it. -/
theorem Ascend.cons {start next stop depth : Nat} {ps : List Place}
    (rest : Ascend next stop ps) (lt : start < next) (le : next ≤ stop) :
    Ascend start stop (⟨start, depth⟩ :: ps) := by
  have single : Ascend start next [⟨start, depth⟩] :=
    ⟨List.pairwise_singleton _ _, by simpa⟩
  exact single.append rest (Nat.le_of_lt lt) le

namespace ElementValue

mutual

/-- The places of a value and of all values inside it, in file order. -/
def places (offset depth : Nat) : ElementValue → List Place
  | nested _ elements _ =>
      ⟨offset, depth⟩ :: elementPlaces (offset + 5) (depth + 1) elements
  | array items =>
      ⟨offset, depth⟩ :: itemPlaces (offset + 3) (depth + 1) items
  | _ => [⟨offset, depth⟩]

/-- The places of items. -/
def itemPlaces (offset depth : Nat) : List ElementValue → List Place
  | [] => []
  | v :: items =>
      v.places offset depth ++ itemPlaces (offset + v.size) depth items

/-- The places of the values of elements. -/
def elementPlaces (offset depth : Nat) :
    List (String × ElementValue) → List Place
  | [] => []
  | (_, v) :: elements =>
      v.places (offset + 2) depth ++
        elementPlaces (offset + 2 + v.size) depth elements

end

section Sizes

variable {pool : ConstantPool} {v : ElementValue}
  {items : List ElementValue} {elements : List (String × ElementValue)}
  {type : String} {used : List UInt8}

theorem size_of_single? {kind : Char × Constant}
    (single : v.single? = some kind) : v.size = 3 := by
  cases v <;> first | rfl | cases single

mutual

/-- A value is laid out in as many bytes as its size says. -/
theorem length_of_isLaidOut {v : ElementValue} {used : List UInt8} :
    v.IsLaidOut pool used → used.length = v.size
  | .single kind _ => by
      rw [size_of_single? kind]
      rfl
  | .enumConstant _ _ => rfl
  | .nested laid => by
      rw [List.length_cons, length_of_partsLaidOut laid, size]
      omega
  | .array _ laid => by
      rw [List.length_cons, List.length_append, Bytes.length_ofNumber,
        length_of_itemsLaidOut laid, size]
      omega

theorem length_of_itemsLaidOut {items : List ElementValue}
    {used : List UInt8} :
    ItemsLaidOut pool items used → used.length = itemsSize items
  | .nil => rfl
  | .cons first rest => by
      rw [List.length_append, length_of_isLaidOut first,
        length_of_itemsLaidOut rest, itemsSize]

theorem length_of_elementsLaidOut {elements : List (String × ElementValue)}
    {used : List UInt8} :
    ElementsLaidOut pool elements used → used.length = elementsSize elements
  | .nil => rfl
  | .cons _ first rest => by
      rw [List.length_append, List.length_append, Bytes.length_ofNumber,
        length_of_isLaidOut first, length_of_elementsLaidOut rest,
        elementsSize]

theorem length_of_partsLaidOut {type : String}
    {elements : List (String × ElementValue)} {used : List UInt8} :
    PartsLaidOut pool type elements used →
      used.length = 4 + elementsSize elements
  | .intro _ _ laid => by
      rw [List.length_append, List.length_append, Bytes.length_ofNumber,
        Bytes.length_ofNumber, length_of_elementsLaidOut laid]
      omega

end

/-- The place of a value comes before those of the values inside it. -/
theorem exists_places_eq_cons (v : ElementValue) (offset depth : Nat) :
    ∃ inside, v.places offset depth = ⟨offset, depth⟩ :: inside := by
  cases v <;> exact ⟨_, rfl⟩

end Sizes

mutual

/-- The places of a value ascend, and lie in its bytes. -/
theorem ascend_places (offset depth : Nat) : (v : ElementValue) →
    Ascend offset (offset + v.size) (v.places offset depth)
  | nested _ elements _ => by
      rw [size, places, ← Nat.add_assoc]
      exact (ascend_elementPlaces (offset + 5) (depth + 1) elements).cons
        (by omega) (by omega)
  | array items => by
      rw [size, places, ← Nat.add_assoc]
      exact (ascend_itemPlaces (offset + 3) (depth + 1) items).cons
        (by omega) (by omega)
  | enumConstant .. | byte _ | char _ | short _ | int _ | long _ | float _
  | double _ | boolean _ | string _ | classLiteral _ =>
      (Ascend.nil (offset + 1) _).cons (by omega) (by simp [size])

theorem ascend_itemPlaces (offset depth : Nat) :
    (items : List ElementValue) → Ascend offset (offset + itemsSize items)
      (itemPlaces offset depth items)
  | [] => .nil _ _
  | v :: items => by
      rw [itemsSize, itemPlaces, ← Nat.add_assoc]
      exact (ascend_places offset depth v).append
        (ascend_itemPlaces (offset + v.size) depth items) (by omega)
        (by omega)

theorem ascend_elementPlaces (offset depth : Nat) :
    (elements : List (String × ElementValue)) →
      Ascend offset (offset + elementsSize elements)
        (elementPlaces offset depth elements)
  | [] => .nil _ _
  | (_, v) :: elements => by
      rw [elementsSize, elementPlaces, ← Nat.add_assoc, ← Nat.add_assoc]
      exact ((ascend_places (offset + 2) depth v).append
        (ascend_elementPlaces (offset + 2 + v.size) depth elements)
        (by omega) (by omega)).mono (by omega) (Nat.le_refl _)

end

end ElementValue

/-- The fault at the first place that is too deep, if there is one. -/
def faultAt (places : List Place) : Option FormatError :=
  (places.find? fun p => 32 ≤ p.depth).map fun p =>
    .nestingTooDeep 32 p.offset

theorem faultAt_append (ps qs : List Place) :
    faultAt (ps ++ qs) = (faultAt ps).or (faultAt qs) := by
  rw [faultAt, List.find?_append, Option.map_or]
  rfl

theorem faultAt_cons_of_lt {p : Place} (small : p.depth < 32)
    (ps : List Place) : faultAt (p :: ps) = faultAt ps := by
  rw [faultAt, List.find?_cons_of_neg (by simpa using small)]
  rfl

theorem faultAt_eq_none {ps : List Place} (small : ∀ p ∈ ps, p.depth < 32) :
    faultAt ps = none := by
  rw [faultAt, Option.map_eq_none_iff, List.find?_eq_none]
  intro p member
  simpa using small p member

/-- Where places ascend, the first in their order is the one in front. -/
theorem Ascend.faultAt_eq_some {start stop : Nat} {ps : List Place}
    {p : Place} (ascend : Ascend start stop ps) (member : p ∈ ps)
    (deep : 32 ≤ p.depth)
    (first : ∀ q ∈ ps, 32 ≤ q.depth → p.offset ≤ q.offset) :
    faultAt ps = some (.nestingTooDeep 32 p.offset) := by
  cases found : ps.find? fun p => 32 ≤ p.depth with
  | none =>
      have small := List.find?_eq_none.mp found p member
      exact absurd (decide_eq_true deep) small
  | some q =>
      obtain ⟨large, before, behind, rfl, early⟩ :=
        List.find?_eq_some_iff_append.mp found
      have le := first q (by simp) (of_decide_eq_true large)
      have same : p = q := by
        rcases List.mem_append.mp member with inside | inside
        · exact absurd deep (by simpa using early p inside)
        rcases List.mem_cons.mp inside with eq | inside
        · exact eq
        have ordered := (List.pairwise_append.mp ascend.ordered).2.1
        have lt := (List.pairwise_cons.mp ordered).1 p inside
        omega
      rw [faultAt, found, same]
      rfl

namespace Parser

variable {α β : Type} {p : Parser α} {f : α → Parser β} {offset : Nat}
  {used used' : List UInt8} {fault fault' : Option FormatError} {x : α}
  {y : β}

/-- Some bytes are read as a value, or with a fault where there is one. -/
def Ends (p : Parser α) (offset : Nat) (used : List UInt8)
    (fault : Option FormatError) (x : α) : Prop :=
  match fault with
  | none => Reads p offset used x
  | some e => ∀ rest, p ⟨offset, used ++ rest⟩ = .error e

/-- Of parsers run one after another, the first one that fails decides. -/
theorem Ends.bind (first : Ends p offset used fault x)
    (second : Ends (f x) (offset + used.length) used' fault' y) :
    Ends (p >>= f) offset (used ++ used') (fault.or fault') y := by
  cases fault with
  | some e =>
      intro rest
      rw [List.append_assoc]
      exact bind_eq_of_error (first _)
  | none =>
      rw [Option.none_or]
      cases fault' with
      | none => exact Reads.bind first second
      | some e =>
          intro rest
          rw [List.append_assoc, bind_eq_of_ok (first _)]
          exact second rest

theorem Ends.map (g : α → β) (ends : Ends p offset used fault x) :
    Ends (p >>= fun x => pure (g x)) offset used fault (g x) := by
  have made : Ends (pure (g x)) (offset + used.length) [] none (g x) :=
    reads_pure (g x)
  have both := ends.bind (f := fun x => pure (g x)) made
  rwa [List.append_nil, Option.or_none] at both

/-- What is read without a fault may stand in front. -/
theorem Ends.of_reads (first : Reads p offset used x)
    (second : Ends (f x) (offset + used.length) used' fault y) :
    Ends (p >>= f) offset (used ++ used') fault y := by
  have alone : Ends p offset used none x := first
  have both := alone.bind second
  rwa [Option.none_or] at both

theorem reads_lookup {get : Nat → Except FormatError α} {i : UInt16}
    (stands : get i.toNat = .ok x) :
    Reads (lookup get) offset (Bytes.ofNumber 2 i.toNat) x := by
  intro rest
  rw [lookup, bind_eq_of_ok (accepts_u2.complete offset _ i rfl rest), stands]
  rfl

/-- A count is read as the number that it is. -/
theorem reads_count {n : Nat} (small : n < 65536) :
    Reads u2 offset (Bytes.ofNumber 2 n) (UInt16.ofNat n) := by
  have read := accepts_u2.complete offset _ (UInt16.ofNat n) rfl
  rwa [toNat_ofNat_u2 small] at read

end Parser

theorem ConstantPool.text_of_get {pool : ConstantPool} {i : Nat}
    {text : String} (stands : pool.get i = .ok (.utf8 text)) :
    pool.text i = .ok text := by
  rw [ConstantPool.text, stands]

theorem ConstantPool.integer_of_get {pool : ConstantPool} {i : Nat}
    {value : Int32} (stands : pool.get i = .ok (.integer value)) :
    pool.integer i = .ok value := by
  rw [ConstantPool.integer, stands]

namespace ElementValue

open Annotation

variable {pool : ConstantPool} {visible : Bool}

/-- A value with one constant is read behind its tag. -/
theorem reads_single {v : ElementValue} {tag : Char} {constant : Constant}
    {i : UInt16} (kind : v.single? = some (tag, constant))
    (stands : pool.get i.toNat = .ok constant) (inner : Parser ElementValue)
    (start offset : Nat) :
    Reads (readTagged pool visible inner start tag) offset
      (Bytes.ofNumber 2 i.toNat) (v.withVisible visible) := by
  have made {α : Type} {get : Nat → Except FormatError α} {x : α}
      (g : α → ElementValue) (found : get i.toNat = .ok x) :
      Reads (lookup get >>= fun x => pure (g x)) offset
        (Bytes.ofNumber 2 i.toNat) (g x) :=
    (reads_lookup found).map g
  cases v with
  | byte value =>
      cases kind
      have read := made (fun n => byte n.toInt8)
        (ConstantPool.integer_of_get stands)
      rwa [Int8.toInt8_toInt32] at read
  | char value =>
      cases kind
      have read := made (fun n => char n.toUInt32.toUInt16)
        (ConstantPool.integer_of_get stands)
      rwa [UInt32.toUInt32_toInt32, UInt16.toUInt16_toUInt32] at read
  | short value =>
      cases kind
      have read := made (fun n => short n.toInt16)
        (ConstantPool.integer_of_get stands)
      rwa [Int16.toInt16_toInt32] at read
  | int value =>
      cases kind
      exact made int (ConstantPool.integer_of_get stands)
  | boolean value =>
      cases kind
      have read := made (fun n => boolean (n ≠ 0))
        (ConstantPool.integer_of_get stands)
      have same : decide ((if value then 1 else 0 : Int32) ≠ 0) = value := by
        cases value <;> decide
      rwa [same] at read
  | long value =>
      cases kind
      exact made long (by rw [ConstantPool.long, stands])
  | float bits =>
      cases kind
      exact made float (by rw [ConstantPool.float, stands])
  | double bits =>
      cases kind
      exact made double (by rw [ConstantPool.double, stands])
  | string text =>
      cases kind
      exact made string (ConstantPool.text_of_get stands)
  | classLiteral descriptor =>
      cases kind
      exact made classLiteral (ConstantPool.text_of_get stands)
  | enumConstant | nested | array => cases kind

/-- A value is read where another one may still stand inside it. -/
theorem ends_readValue {tag : Char} {body : List UInt8} {budget offset : Nat}
    {fault : Option FormatError} {v : ElementValue}
    (small : Char.ofNat (tagByte tag).toNat = tag)
    (ends : Ends (readTagged pool visible (readValue pool visible budget)
      offset tag) (offset + 1) body fault v) :
    Ends (readValue pool visible (budget + 1)) offset (tagByte tag :: body)
      fault v := by
  have tagged : Ends (u1 >>= fun tag => readTagged pool visible
      (readValue pool visible budget) offset (Char.ofNat tag.toNat)) offset
      (tagByte tag :: body) fault v := by
    refine Ends.of_reads (accepts_u1.complete offset _ (tagByte tag) rfl) ?_
    rw [small]
    exact ends
  cases fault with
  | none => exact Reads.position_bind tagged
  | some e => exact fun rest => tagged rest

/-- Where no level is left, a value is not read. -/
theorem ends_readValue_zero (v x : ElementValue) (used : List UInt8)
    (offset : Nat) :
    Ends (readValue pool visible 0) offset used
      (faultAt (v.places offset 32)) x := by
  obtain ⟨inside, eq⟩ := exists_places_eq_cons v offset 32
  have fault : faultAt (v.places offset 32) =
      some (.nestingTooDeep 32 offset) := by
    rw [eq, faultAt, List.find?_cons_of_pos (by simp)]
    rfl
  rw [fault]
  exact fun rest => rfl

theorem ofNat_tagByte_of_single? {v : ElementValue} {tag : Char}
    {constant : Constant} (kind : v.single? = some (tag, constant)) :
    Char.ofNat (tagByte tag).toNat = tag := by
  cases v <;> cases kind <;> rfl

theorem places_of_single? {v : ElementValue} {kind : Char × Constant}
    (single : v.single? = some kind) (offset depth : Nat) :
    v.places offset depth = [⟨offset, depth⟩] := by
  cases v <;> first | rfl | cases single

-- The levels that are left and the depth of the value add up to the limit.
mutual

/-- A value is read, or fails at the first place that is too deep. -/
theorem ends_of_isLaidOut {v : ElementValue} {used : List UInt8} :
    v.IsLaidOut pool used → ∀ budget depth offset, depth + budget = 32 →
      Ends (readValue pool visible budget) offset used
        (faultAt (v.places offset depth)) (v.withVisible visible)
  | laid, 0, depth, offset, limit => by
      obtain rfl : depth = 32 := limit
      exact ends_readValue_zero v _ used offset
  | .single kind stands, budget + 1, depth, offset, limit => by
      rw [places_of_single? kind, faultAt_cons_of_lt (by simp; omega)]
      exact ends_readValue (ofNat_tagByte_of_single? kind)
        (reads_single kind stands _ _ _)
  | .enumConstant standsType stands, budget + 1, depth, offset, limit => by
      change Ends _ _ _ (faultAt [⟨offset, depth⟩]) _
      rw [faultAt_cons_of_lt (by simp; omega)]
      refine ends_readValue rfl ?_
      exact (reads_lookup (ConstantPool.text_of_get standsType)).bind
        ((reads_lookup (ConstantPool.text_of_get stands)).map _)
  | .nested laid, budget + 1, depth, offset, limit => by
      rw [places, faultAt_cons_of_lt (by simp; omega)]
      refine ends_readValue rfl ?_
      exact (ends_of_partsLaidOut laid budget (depth + 1) (offset + 1)
        (by omega)).map fun (type, elements) => nested type elements visible
  | .array few laid, budget + 1, depth, offset, limit => by
      rw [places, faultAt_cons_of_lt (by simp; omega)]
      refine ends_readValue rfl (Ends.of_reads (reads_count few) ?_)
      rw [toNat_ofNat_u2 few, Bytes.length_ofNumber]
      exact (ends_of_itemsLaidOut laid budget (depth + 1) (offset + 3)
        (by omega)).map array

theorem ends_of_itemsLaidOut {items : List ElementValue}
    {used : List UInt8} :
    ItemsLaidOut pool items used → ∀ budget depth offset,
      depth + budget = 32 →
      Ends (times (readValue pool visible budget) items.length) offset used
        (faultAt (itemPlaces offset depth items))
        (itemsWithVisible visible items)
  | .nil, budget, depth, offset, limit => reads_pure []
  | .cons (v := v) first rest, budget, depth, offset, limit => by
      rw [itemPlaces, faultAt_append, ← length_of_isLaidOut first]
      exact (ends_of_isLaidOut first budget depth offset limit).bind
        ((ends_of_itemsLaidOut rest budget depth _ limit).map
          (v.withVisible visible :: ·))

theorem ends_of_elementsLaidOut {elements : List (String × ElementValue)}
    {used : List UInt8} :
    ElementsLaidOut pool elements used → ∀ budget depth offset,
      depth + budget = 32 →
      Ends (times (readElement pool (readValue pool visible budget))
          elements.length) offset used
        (faultAt (elementPlaces offset depth elements))
        (elementsWithVisible visible elements)
  | .nil, budget, depth, offset, limit => reads_pure []
  | @ElementsLaidOut.cons _ name v elements i a b stands first rest, budget,
      depth, offset, limit => by
      have named : Reads (lookup pool.text) offset
          (Bytes.ofNumber 2 i.toNat) name :=
        reads_lookup (ConstantPool.text_of_get stands)
      have value := (ends_of_isLaidOut first budget depth (offset + 2)
        limit).map (Prod.mk name)
      have others := ends_of_elementsLaidOut rest budget depth
        (offset + 2 + a.length) limit
      have moved : offset + (Bytes.ofNumber 2 i.toNat ++ a).length =
          offset + 2 + a.length := by
        rw [List.length_append, Bytes.length_ofNumber, Nat.add_assoc]
      rw [← moved] at others
      rw [elementPlaces, faultAt_append, ← length_of_isLaidOut first,
        ← moved]
      exact (Ends.of_reads named value).bind
        (others.map ((name, v.withVisible visible) :: ·))

theorem ends_of_partsLaidOut {type : String}
    {elements : List (String × ElementValue)} {used : List UInt8} :
    PartsLaidOut pool type elements used → ∀ budget depth offset,
      depth + budget = 32 →
      Ends (readParts pool (readValue pool visible budget)) offset used
        (faultAt (elementPlaces (offset + 4) depth elements))
        (type, elementsWithVisible visible elements)
  | .intro stands few laid, budget, depth, offset, limit => by
      refine Ends.of_reads
        (reads_lookup (ConstantPool.text_of_get stands)) ?_
      refine Ends.of_reads (reads_count few) ?_
      rw [toNat_ofNat_u2 few, Bytes.length_ofNumber, Bytes.length_ofNumber]
      exact (ends_of_elementsLaidOut laid budget depth (offset + 4)
        limit).map (Prod.mk type)

end

end ElementValue

namespace Annotation

open ElementValue

/-- The bytes of annotations one after another. -/
inductive AreLaidOut (pool : ConstantPool) :
    List Annotation → List UInt8 → Prop
  | nil : AreLaidOut pool [] []
  | cons {a : Annotation} {as : List Annotation} {first behind : List UInt8}
      (laid : PartsLaidOut pool a.type a.elements first)
      (rest : AreLaidOut pool as behind) :
      AreLaidOut pool (a :: as) (first ++ behind)

/-- The bytes of a list of annotations, which has its count in front. -/
def IsListLaidOut (pool : ConstantPool) (as : List Annotation)
    (used : List UInt8) : Prop :=
  as.length < 65536 ∧ ∃ inside, AreLaidOut pool as inside ∧
    used = Bytes.ofNumber 2 as.length ++ inside

/-- The annotation with all that are inside it of one visibility. -/
def withVisible (visible : Bool) (a : Annotation) : Annotation :=
  ⟨a.type, elementsWithVisible visible a.elements, visible⟩

/-- The places of all values of annotations, in file order. -/
def places (offset : Nat) : List Annotation → List Place
  | [] => []
  | a :: as => elementPlaces (offset + 4) 0 a.elements ++
      places (offset + 4 + elementsSize a.elements) as

theorem exists_ascend_places (offset : Nat) (as : List Annotation) :
    ∃ stop, offset ≤ stop ∧ Ascend offset stop (places offset as) := by
  induction as generalizing offset with
  | nil => exact ⟨offset, Nat.le_refl _, .nil _ _⟩
  | cons a as ih =>
      obtain ⟨stop, le, rest⟩ := ih (offset + 4 + elementsSize a.elements)
      have first := ascend_elementPlaces (offset + 4) 0 a.elements
      exact ⟨stop, by omega,
        (first.append rest (by omega) le).mono (by omega) (Nat.le_refl _)⟩

variable {pool : ConstantPool} {visible : Bool}

theorem ends_of_areLaidOut {as : List Annotation} {used : List UInt8}
    (laid : AreLaidOut pool as used) (offset : Nat) :
    Ends (times (read pool visible) as.length) offset used
      (faultAt (places offset as)) (as.map (withVisible visible)) := by
  induction laid generalizing offset with
  | nil => exact reads_pure []
  | @cons a as first behind laid rest ih =>
      have parts : Ends (readParts pool (readValue pool visible maxDepth))
          offset first (faultAt (elementPlaces (offset + 4) 0 a.elements))
          (a.type, elementsWithVisible visible a.elements) :=
        ends_of_partsLaidOut laid maxDepth 0 offset rfl
      have one := parts.map
        fun (type, elements) => Annotation.mk type elements visible
      rw [places, faultAt_append, Nat.add_assoc,
        ← length_of_partsLaidOut laid]
      exact one.bind ((ih _).map (a.withVisible visible :: ·))

/-- Annotations are read, or fail at the first place that is too deep. -/
theorem ends_of_isListLaidOut {as : List Annotation} {used : List UInt8}
    (laid : IsListLaidOut pool as used) (visible : Bool) (offset : Nat) :
    Ends (readAll pool visible) offset used (faultAt (places (offset + 2) as))
      (as.map (withVisible visible)) := by
  obtain ⟨few, inside, laid, rfl⟩ := laid
  refine Ends.of_reads (reads_count few) ?_
  rw [toNat_ofNat_u2 few, Bytes.length_ofNumber]
  exact ends_of_areLaidOut laid (offset + 2)

/--
Annotations that are laid out in a list are read back, with one visibility for
all of them, and their bytes are all that is taken, if no value stands at depth
32 or deeper. Otherwise reading fails at the first value that does.
-/
theorem readAll_of_isListLaidOut {as : List Annotation} {used : List UInt8}
    (laid : IsListLaidOut pool as used) (visible : Bool) (offset : Nat)
    (rest : List UInt8) :
    ((∀ p ∈ places (offset + 2) as, p.depth < 32) →
      readAll pool visible ⟨offset, used ++ rest⟩ =
        .ok (as.map (withVisible visible),
          ⟨offset + used.length, rest⟩)) ∧
    ∀ p ∈ places (offset + 2) as, 32 ≤ p.depth →
      (∀ q ∈ places (offset + 2) as, 32 ≤ q.depth → p.offset ≤ q.offset) →
      readAll pool visible ⟨offset, used ++ rest⟩ =
        .error (.nestingTooDeep 32 p.offset) := by
  have ends := ends_of_isListLaidOut laid visible offset
  constructor
  · intro small
    rw [faultAt_eq_none small] at ends
    exact ends rest
  · intro p member deep first
    obtain ⟨stop, -, ascend⟩ := exists_ascend_places (offset + 2) as
    rw [ascend.faultAt_eq_some member deep first] at ends
    exact ends rest

/-- So many arrays around an empty one, each inside the one before it. -/
def arrays : Nat → ElementValue
  | 0 => .array []
  | n + 1 => .array [arrays n]

/-- The bytes of arrays inside each other. -/
def bytesOfArrays : Nat → List UInt8
  | 0 => [91, 0, 0]
  | n + 1 => [91, 0, 1] ++ bytesOfArrays n

theorem ofNumber_one : Bytes.ofNumber 2 1 = [0, 1] := by decide

theorem isLaidOut_arrays (pool : ConstantPool) (n : Nat) :
    (arrays n).IsLaidOut pool (bytesOfArrays n) := by
  induction n with
  | zero => exact .array (by decide) .nil
  | succ n ih =>
      have items := ItemsLaidOut.cons ih .nil
      have bytes : bytesOfArrays (n + 1) =
          tagByte '[' :: (Bytes.ofNumber 2 1 ++ bytesOfArrays n) := by
        rw [ofNumber_one]
        rfl
      rw [List.append_nil] at items
      rw [bytes]
      exact .array (by simp) items

/-- A pool with the names of an annotation and of its element. -/
def poolOfNames : ConstantPool :=
  ⟨#[none, some (.utf8 "LA;"), some (.utf8 "v")]⟩

theorem isListLaidOut_arrays (n : Nat) :
    IsListLaidOut poolOfNames [⟨"LA;", [("v", arrays n)], false⟩]
      ([0, 1, 0, 1, 0, 1, 0, 2] ++ bytesOfArrays n) := by
  have type : poolOfNames.get (1 : UInt16).toNat = .ok (.utf8 "LA;") := rfl
  have name : poolOfNames.get (2 : UInt16).toNat = .ok (.utf8 "v") := rfl
  have elements := ElementsLaidOut.cons name
    (isLaidOut_arrays poolOfNames n) .nil
  have parts := PartsLaidOut.intro type (by simp) elements
  rw [List.append_nil] at parts
  refine ⟨by simp, _, .cons parts .nil, ?_⟩
  change _ = Bytes.ofNumber 2 1 ++ (Bytes.ofNumber 2 1 ++
    (Bytes.ofNumber 2 1 ++ ([0, 2] ++ bytesOfArrays n)) ++ [])
  rw [ofNumber_one, List.append_nil]
  rfl

/-- An array at depth 31 is read, and one at depth 32 is not. -/
theorem readAll_arrays :
    readAll poolOfNames true
        ⟨0, ([0, 1, 0, 1, 0, 1, 0, 2] ++ bytesOfArrays 31) ++ [7]⟩ =
      .ok ([⟨"LA;", [("v", arrays 31)], true⟩], ⟨104, [7]⟩) ∧
    readAll poolOfNames true
        ⟨0, ([0, 1, 0, 1, 0, 1, 0, 2] ++ bytesOfArrays 32) ++ [7]⟩ =
      .error (.nestingTooDeep 32 104) :=
  ⟨(readAll_of_isListLaidOut (isListLaidOut_arrays 31) true 0 [7]).1
      (by decide),
    (readAll_of_isListLaidOut (isListLaidOut_arrays 32) true 0 [7]).2
      ⟨104, 32⟩ (by decide) (by decide) (by decide)⟩

end Annotation
end NativeGlue
