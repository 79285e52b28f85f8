import NativeGlue.Proofs.Lookup
import NativeGlue.Proofs.Text.Separators
import NativeGlue.Storage.Basic

/-!
# Files in a directory

The path of a name in a directory leads through the directory, whatever way
the path of the directory is written. Nothing that is done to a file there
stands in the way of another one: the way to a file leads through directories
only, and these are kept when a file is put or taken away.
-/

namespace NativeGlue

namespace Path

open Text

/-- A text that a file in a directory can have as its name. -/
structure IsName (name : String) : Prop where
  nonempty : name ≠ ""
  noSlash : '/' ∉ name.toList
  noStep : isStep name = false

variable {name : String}

theorem isName_of_mem_written {path : String} (member : name ∈ written path)
    (noStep : isStep name = false) : IsName name := by
  obtain ⟨field, nonempty⟩ := List.mem_filter.mp member
  obtain ⟨f, among, rfl⟩ := List.mem_map.mp field
  refine ⟨by simpa using nonempty, ?_, noStep⟩
  rw [String.toList_ofList]
  exact not_mem_of_mem_fields among

theorem IsName.ne_root (plain : IsName name) : name ≠ "/" := by
  rintro rfl
  exact plain.noSlash (List.mem_singleton_self '/')

theorem IsName.ne_up (plain : IsName name) : name ≠ ".." := by
  rintro rfl
  cases plain.noStep

theorem IsName.not_absolute (plain : IsName name) :
    isAbsolute name = false := by
  rw [isAbsolute, decide_eq_false_iff_not]
  exact fun first => plain.noSlash (List.mem_of_mem_head? first)

/-- What stands before a name in the path of it in a directory. -/
theorem IsName.toList_join (plain : IsName name) (dir : String) :
    dir = "" ∧ join dir name = name ∨
      ∃ front, (join dir name).toList = front ++ '/' :: name.toList ∧
        (dir.toList = front ++ ['/'] ∨ dir.toList = front ∧ front ≠ []) := by
  rw [join, plain.not_absolute]
  by_cases empty : dir = ""
  · subst empty
    exact .inl ⟨rfl, String.empty_append⟩
  · have chars : dir.toList ≠ [] := by
      simpa using empty
    by_cases slash : dir.toList.getLast? = some '/'
    · obtain ⟨front, eq⟩ := List.getLast?_eq_some_iff.mp slash
      refine .inr ⟨front, ?_, .inl eq⟩
      simp [eq]
    · refine .inr ⟨dir.toList, ?_, .inr ⟨rfl, chars⟩⟩
      simp [slash, empty]

/-- A name in a directory is one part more. -/
theorem IsName.written_join (plain : IsName name) (dir : String) :
    written (join dir name) = written dir ++ [name] := by
  rcases plain.toList_join dir with ⟨rfl, eq⟩ | ⟨front, eq, slash | ⟨same, -⟩⟩
  · rw [eq, written, fields_of_not_mem plain.noSlash]
    simp [written, fields, plain.nonempty]
  · simp [written, eq, slash, fields_append_cons_last plain.noSlash,
      fields_append_cons_last (f := []) List.not_mem_nil, plain.nonempty]
  · simp [written, eq, same, fields_append_cons_last plain.noSlash,
      plain.nonempty]

theorem IsName.parts_join (plain : IsName name) (dir : String) :
    parts (join dir name) = parts dir ++ [name] := by
  have other : name ≠ "." := by
    rintro rfl
    cases plain.noStep
  simp [parts, plain.written_join, other]

theorem IsName.isAbsolute_join (plain : IsName name) (dir : String) :
    isAbsolute (join dir name) = isAbsolute dir := by
  rcases plain.toList_join dir with
    ⟨rfl, eq⟩ | ⟨front, eq, slash | ⟨same, long⟩⟩
  · rw [eq, plain.not_absolute]
    rfl
  · rw [isAbsolute, isAbsolute, eq, slash]
    cases front <;> rfl
  · rw [isAbsolute, isAbsolute, eq, same]
    cases front with
    | nil => exact absurd rfl long
    | cons c front => rfl

/-- Nothing is trimmed from a path that ends in a name. -/
theorem IsName.trimEnd_reverse (plain : IsName name) (front : List Char) :
    trimEnd (front ++ name.toList).reverse =
      (front ++ name.toList).reverse := by
  have clear : '/' ∉ name.toList.reverse := by
    simpa using plain.noSlash
  have long : name.toList.reverse ≠ [] := by
    simpa using plain.nonempty
  have dot : name.toList.reverse ≠ ['.'] := by
    intro eq
    have same : name = "." := by
      rw [← String.ofList_toList (s := name), ← List.reverse_reverse name.toList,
        eq]
      rfl
    rw [same] at plain
    cases plain.noStep
  rw [List.reverse_append]
  match eq : name.toList.reverse with
  | [] => exact absurd eq long
  | c :: cs =>
      rw [eq] at clear dot
      rw [trimEnd]
      · rintro d ds same
        simp_all
      · rintro ds same
        cases cs <;> simp_all

theorem IsName.namesDirectory_join (plain : IsName name) (dir : String) :
    namesDirectory (join dir name) = false := by
  have kept : ∃ front, (join dir name).toList = front ++ name.toList := by
    rcases plain.toList_join dir with ⟨-, eq⟩ | ⟨front, eq, -⟩
    · exact ⟨[], by rw [eq, List.nil_append]⟩
    · exact ⟨front ++ ['/'], by rw [eq, List.append_assoc]; rfl⟩
  obtain ⟨front, eq⟩ := kept
  simp only [namesDirectory, eq, plain.trimEnd_reverse, ne_eq,
    not_true_eq_false, decide_false]

end Path

namespace FileSystem

open NativeGlue.Path

variable {fs fs' : FileSystem} {place other : Location} {name : String}

section Nodes

theorem isFixed_concat (root : name ≠ "/") (up : name ≠ "..")
    (place : Location) : isFixed (place ++ [name]) = false := by
  have other : place ++ [name] ≠ ["/"] := by
    intro eq
    exact root (List.mem_singleton.mp (eq ▸ List.mem_append_right place
      (List.mem_singleton_self name)))
  simp [isFixed, up, other]

/-- A name in a directory is none of the places that are always there. -/
theorem isFixed_append_name (plain : IsName name) (place : Location) :
    isFixed (place ++ [name]) = false :=
  isFixed_concat plain.ne_root plain.ne_up place

theorem node?_eq_some_iff {node : Node} :
    fs.node? place = some node ↔
      isFixed place = true ∧ node = .directory ∨
        isFixed place = false ∧ (place, node) ∈ fs.nodes := by
  rw [node?]
  cases isFixed place with
  | false => simp [lookup_eq_some_iff_mem fs.distinct]
  | true => simp [eq_comm]

theorem mem_nodes_erase {node : Node} :
    (other, node) ∈ (fs.erase place).nodes ↔
      (other, node) ∈ fs.nodes ∧ other ≠ place := by
  simp [erase]

theorem mem_nodes_put {node node' : Node} :
    (other, node') ∈ (fs.put place node).nodes ↔
      (other, node') ∈ fs.nodes ∧ other ≠ place ∨
        other = place ∧ node' = node := by
  simp [put, mem_nodes_erase]

theorem node?_erase_of_ne (ne : other ≠ place) :
    (fs.erase place).node? other = fs.node? other := by
  refine Option.ext fun node => ?_
  simp [node?_eq_some_iff, mem_nodes_erase, ne]

theorem node?_erase_self (free : isFixed place = false) :
    (fs.erase place).node? place = none := by
  refine Option.eq_none_iff_forall_ne_some.mpr fun node => ?_
  simp [node?_eq_some_iff, mem_nodes_erase, free]

theorem node?_put_of_ne {node : Node} (ne : other ≠ place) :
    (fs.put place node).node? other = fs.node? other := by
  refine Option.ext fun node => ?_
  simp [node?_eq_some_iff, mem_nodes_put, ne]

theorem node?_put_self {node : Node} (free : isFixed place = false) :
    (fs.put place node).node? place = some node := by
  simp [node?_eq_some_iff, mem_nodes_put, free]

end Nodes

section Ways

/-- Every directory is still there, if other things may be no more. -/
def KeepsDirectories (fs fs' : FileSystem) : Prop :=
  ∀ place, fs.node? place = some .directory →
    fs'.node? place = some .directory

/-- A change at one place keeps directories if there was none. -/
theorem keepsDirectories_of_others (free : fs.node? place ≠ some .directory)
    (others : ∀ l, l ≠ place → fs'.node? l = fs.node? l) :
    fs.KeepsDirectories fs' := by
  intro l directory
  have ne : l ≠ place := by
    rintro rfl
    exact free directory
  rw [others l ne, directory]

theorem KeepsDirectories.trans {fs'' : FileSystem}
    (first : fs.KeepsDirectories fs') (second : fs'.KeepsDirectories fs'') :
    fs.KeepsDirectories fs'' :=
  fun place directory => second place (first place directory)

/-- A way through directories goes on where they are kept. -/
theorem KeepsDirectories.follow (keeps : fs.KeepsDirectories fs')
    {dir : Location} {way : List String}
    (followed : fs.follow dir way = .ok place) :
    fs'.follow dir way = .ok place := by
  induction way generalizing dir with
  | nil =>
      exact followed
  | cons part way ih =>
      rw [FileSystem.follow] at followed ⊢
      split at followed
      · cases followed
      · cases followed
      · rename_i directory
        rw [keeps _ directory]
        split at followed
        · cases followed
        · rename_i short
          simp only [short]
          exact ih followed

theorem KeepsDirectories.locate (keeps : fs.KeepsDirectories fs')
    {path : String} (located : fs.locate path = .ok place) :
    fs'.locate path = .ok place := by
  rw [FileSystem.locate] at located ⊢
  cases fault : pathFault? path with
  | some kind =>
      rw [fault] at located
      cases located
  | none =>
      rw [fault] at located
      exact keeps.follow located

/-- A path leads to a directory at a place. -/
structure LeadsTo (fs : FileSystem) (path : String) (place : Location) :
    Prop where
  located : fs.locate path = .ok place
  directory : fs.node? place = some .directory

theorem KeepsDirectories.leadsTo (keeps : fs.KeepsDirectories fs')
    {path : String} (leads : fs.LeadsTo path place) :
    fs'.LeadsTo path place :=
  ⟨keeps.locate leads.located, keeps place leads.directory⟩

theorem isDirectory_iff {path : String} :
    fs.isDirectory path = true ↔ ∃ place, fs.LeadsTo path place := by
  have leads : fs.isDirectory path = true ↔
      ∃ place, fs.locate path = .ok place ∧
        fs.node? place = some .directory := by
    rw [isDirectory, find]
    cases fs.locate path with
    | error kind => simp
    | ok place =>
        cases found : fs.node? place with
        | none => simp [found]
        | some node =>
            cases node with
            | file bytes => cases namesDirectory path <;> simp [found]
            | directory => simp [found]
  rw [leads]
  exact exists_congr fun place => ⟨fun h => ⟨h.1, h.2⟩, fun h => ⟨h.1, h.2⟩⟩

theorem follow_concat_eq_ok_iff {dir : Location} {way : List String} :
    fs.follow dir (way ++ [name]) = .ok other ↔
      ∃ place, fs.follow dir way = .ok place ∧
        fs.node? place = some .directory ∧ isTooLong name = false ∧
          other = stepTo place name := by
  induction way generalizing dir with
  | nil =>
      simp only [List.nil_append, FileSystem.follow, Except.ok.injEq,
        exists_eq_left']
      cases fs.node? dir with
      | none => simp
      | some node =>
          cases node <;> cases isTooLong name <;> simp [eq_comm]
  | cons part way ih =>
      rw [List.cons_append, FileSystem.follow, FileSystem.follow]
      cases fs.node? dir with
      | none => simp
      | some node =>
          cases node with
          | file bytes => simp
          | directory =>
              cases isTooLong part with
              | true => simp
              | false => simpa using ih

theorem stepTo_name (plain : IsName name) (place : Location) :
    stepTo place name = place ++ [name] :=
  if_neg plain.ne_up

/-- What holds a name is where the parts of its path before it lead. -/
structure Holds (fs : FileSystem) (path name : String) (place : Location) :
    Prop where
  fault : pathFault? path = none
  plain : IsName name
  directory : fs.node? place = some .directory
  followed : ∃ way, parts path = way ++ [name] ∧
    fs.follow (start path) way = .ok place

theorem holds_of_holder_eq_ok {path : String}
    (held : fs.holder path = .ok (place, name)) (noStep : isStep name = false) :
    fs.Holds path name place := by
  dsimp only [holder] at held
  split at held
  · cases held
  · rename_i fault
    split at held
    · cases held
    · rename_i followed
      split at held
      · cases held
      · cases held
      · rename_i directory
        cases held
        -- A path of which no part is written stands for a step.
        rcases List.eq_nil_or_concat' (written path) with
          empty | ⟨others, last, eq⟩
        · rw [empty] at noStep
          cases noStep
        · rw [eq, List.getLast?_concat, Option.getD_some] at noStep ⊢
          rw [eq, List.dropLast_concat] at followed
          have other : last ≠ "." := by
            rintro rfl
            cases noStep
          have member : last ∈ written path := by
            rw [eq]
            exact List.mem_append_right others (List.mem_singleton_self last)
          refine ⟨fault, isName_of_mem_written member noStep, directory, _,
            ?_, followed⟩
          rw [parts, eq, List.filter_append]
          simp [other]

theorem Holds.locate {path : String} (holds : fs.Holds path name place)
    (short : isTooLong name = false) :
    fs.locate path = .ok (place ++ [name]) := by
  obtain ⟨way, eq, followed⟩ := holds.followed
  rw [FileSystem.locate, holds.fault, eq]
  exact follow_concat_eq_ok_iff.mpr ⟨place, followed, holds.directory, short,
    (stepTo_name holds.plain place).symm⟩

theorem KeepsDirectories.holds (keeps : fs.KeepsDirectories fs')
    {path : String} (holds : fs.Holds path name place) :
    fs'.Holds path name place := by
  obtain ⟨way, eq, followed⟩ := holds.followed
  exact ⟨holds.fault, holds.plain, keeps place holds.directory, way, eq,
    keeps.follow followed⟩

end Ways

section Files

variable {dir : String} {bytes : List UInt8}

/-- The path of a name in a directory leads to a place that holds the name. -/
structure Reaches (fs : FileSystem) (dir name : String) (place : Location) :
    Prop where
  fault : pathFault? (join dir name) = none
  followed : fs.follow (start dir) (parts dir) = .ok place
  directory : fs.node? place = some .directory
  short : isTooLong name = false

theorem KeepsDirectories.reaches (keeps : fs.KeepsDirectories fs')
    (reaches : fs.Reaches dir name place) : fs'.Reaches dir name place :=
  ⟨reaches.fault, keeps.follow reaches.followed,
    keeps place reaches.directory, reaches.short⟩

theorem Reaches.eq_of_leadsTo (reaches : fs.Reaches dir name other)
    (leads : fs.LeadsTo dir place) : other = place := by
  have located := leads.located
  rw [locate] at located
  split at located
  · cases located
  · rw [reaches.followed] at located
    cases located
    rfl

theorem start_join (plain : IsName name) (dir : String) :
    start (join dir name) = start dir := by
  rw [start, start, plain.isAbsolute_join]

theorem locate_join_eq_ok_iff (plain : IsName name) :
    fs.locate (join dir name) = .ok other ↔
      ∃ place, fs.Reaches dir name place ∧ other = place ++ [name] := by
  have way : fs.follow (start (join dir name)) (parts (join dir name)) =
        .ok other ↔
      ∃ place, fs.follow (start dir) (parts dir) = .ok place ∧
        fs.node? place = some .directory ∧ isTooLong name = false ∧
          other = place ++ [name] := by
    rw [start_join plain, plain.parts_join, follow_concat_eq_ok_iff]
    simp only [stepTo_name plain]
  rw [locate]
  cases fault : pathFault? (join dir name) with
  | some kind =>
      constructor
      · nofun
      · rintro ⟨place, reaches, -⟩
        rw [reaches.fault] at fault
        cases fault
  | none =>
      rw [way]
      constructor
      · rintro ⟨place, followed, directory, short, eq⟩
        exact ⟨place, ⟨fault, followed, directory, short⟩, eq⟩
      · rintro ⟨place, reaches, eq⟩
        exact ⟨place, reaches.followed, reaches.directory, reaches.short, eq⟩

theorem read_eq_ok_iff {path : String} (plain : namesDirectory path = false) :
    fs.read path = .ok bytes ↔
      ∃ l, fs.locate path = .ok l ∧ fs.node? l = some (.file bytes) := by
  rw [read, find, plain]
  cases fs.locate path with
  | error kind => simp
  | ok l =>
      cases found : fs.node? l with
      | none => simp [found]
      | some node => cases node <;> simp [found]

theorem read_join_eq_ok_iff (plain : IsName name) :
    fs.read (join dir name) = .ok bytes ↔
      ∃ place, fs.Reaches dir name place ∧
        fs.node? (place ++ [name]) = some (.file bytes) := by
  rw [read_eq_ok_iff (plain.namesDirectory_join dir)]
  simp only [locate_join_eq_ok_iff plain]
  constructor
  · rintro ⟨_, ⟨place, reaches, rfl⟩, found⟩
    exact ⟨place, reaches, found⟩
  · rintro ⟨place, reaches, found⟩
    exact ⟨_, ⟨place, reaches, rfl⟩, found⟩

/-- A file that is written is put where its path leads. -/
theorem exists_of_write_join (plain : IsName name)
    (written : fs.write (join dir name) bytes = .ok fs') :
    ∃ place, fs.Reaches dir name place ∧
      fs.node? (place ++ [name]) ≠ some .directory ∧
        fs' = fs.put (place ++ [name]) (.file bytes) := by
  have replaced : fs.replace (join dir name) bytes = .ok fs' := by
    dsimp only [write] at written
    split at written <;> first | cases written | exact written
  rw [replace] at replaced
  split at replaced
  · cases replaced
  · cases replaced
  · rename_i place part held
    split_ifs at replaced with step long named taken
    cases replaced
    have holds := holds_of_holder_eq_ok held (by simpa using step)
    obtain ⟨way, eq, followed⟩ := holds.followed
    rw [plain.parts_join] at eq
    obtain ⟨rfl, same⟩ := List.append_inj' eq rfl
    obtain rfl := List.singleton_inj.mp same
    rw [start_join plain] at followed
    exact ⟨place, ⟨holds.fault, followed, holds.directory, by simpa using long⟩,
      taken, rfl⟩

theorem append_name_ne {name' : String} (ne : name ≠ name')
    (place place' : Location) : place ++ [name] ≠ place' ++ [name'] := by
  intro eq
  exact ne (List.singleton_inj.mp (List.append_inj' eq rfl).2)

end Files

end FileSystem
end NativeGlue
