import NativeGlue.Proofs.Storage.Directory
import NativeGlue.Proofs.Text.Order

/-!
# The files that are listed in a directory

A listing has each file of a directory once, by name. The walk that it comes
from orders whole ways, of which names are the shortest.
-/

namespace NativeGlue
namespace FileSystem

variable {fs : FileSystem} {place : Location} {name : String}

section Order

theorem locationLe_trans {a b c : Location} (low : locationLe a b = true)
    (high : locationLe b c = true) : locationLe a c = true := by
  induction a generalizing b c with
  | nil => rfl
  | cons x a ih =>
      cases b with
      | nil => cases low
      | cons y b =>
          cases c with
          | nil => cases high
          | cons z c =>
              simp only [locationLe] at low high ⊢
              by_cases first : x = y
              · subst first
                by_cases same : x = z
                · simp only [same, if_true] at low high ⊢
                  exact ih low high
                · simpa only [same, if_false] using high
              · by_cases same : x = z
                · -- Names that differ cannot each come before the other.
                  subst same
                  rw [if_neg first] at low
                  rw [if_neg (Ne.symm first)] at high
                  exact absurd (Text.le_antisymm low high) first
                · rw [if_neg first] at low
                  rw [if_neg same]
                  split_ifs at high with second
                  · exact second ▸ low
                  · exact Text.le_trans low high

theorem locationLe_total (a b : Location) :
    (locationLe a b || locationLe b a) = true := by
  induction a generalizing b with
  | nil => rfl
  | cons x a ih =>
      cases b with
      | nil => rfl
      | cons y b =>
          by_cases same : x = y
          · simpa [locationLe, same] using ih b
          · simpa [locationLe, same, Ne.symm same] using Text.le_total x y

end Order

section Walk

theorem below?_eq_some_iff {dir l rest : Location} :
    below? dir l = some rest ↔ l = dir ++ rest := by
  induction dir generalizing l with
  | nil =>
      simp [below?, eq_comm]
  | cons a dir ih =>
      cases l with
      | nil => simp [below?]
      | cons b l =>
          rw [below?]
          by_cases same : a = b
          · simp [same, ih]
          · simp [same, Ne.symm same]

/-- What stands below a directory, with its way from there. -/
def wayFrom? (dir : Location) : Location × Node → Option (Location × Node)
  | (l, node) =>
      match below? dir l with
      | some (name :: rest) =>
          if isFixed dir && (name = "/" || name = "..") then none
          else some (name :: rest, node)
      | _ => none

theorem below_eq (fs : FileSystem) (dir : Location) :
    fs.below dir = (fs.nodes.filterMap (wayFrom? dir)).mergeSort
      fun a b => locationLe a.1 b.1 :=
  rfl

theorem eq_of_wayFrom? {entry : Location × Node} {way : Location}
    {node : Node} (found : wayFrom? place entry = some (way, node)) :
    entry = (place ++ way, node) := by
  obtain ⟨l, node'⟩ := entry
  dsimp only [wayFrom?] at found
  split at found
  · rename_i divided
    split_ifs at found
    cases found
    rw [below?_eq_some_iff.mp divided]
  · cases found

theorem wayFrom?_name (root : name ≠ "/") (up : name ≠ "..") (node : Node) :
    wayFrom? place (place ++ [name], node) = some ([name], node) := by
  have divided : below? place (place ++ [name]) = some [name] :=
    below?_eq_some_iff.mpr rfl
  simp [wayFrom?, divided, root, up]

theorem mem_below_name_iff (root : name ≠ "/") (up : name ≠ "..")
    {node : Node} :
    ([name], node) ∈ fs.below place ↔ (place ++ [name], node) ∈ fs.nodes := by
  rw [below_eq, List.mem_mergeSort, List.mem_filterMap]
  constructor
  · rintro ⟨entry, member, found⟩
    exact eq_of_wayFrom? found ▸ member
  · intro member
    exact ⟨_, member, wayFrom?_name root up node⟩

/-- A walk has each way once, in order. -/
theorem pairwise_below (fs : FileSystem) (place : Location) :
    (fs.below place).Pairwise fun a b =>
      locationLe a.1 b.1 = true ∧ a.1 ≠ b.1 := by
  have trans : ∀ a b c : Location × Node, locationLe a.1 b.1 = true →
      locationLe b.1 c.1 = true → locationLe a.1 c.1 = true :=
    fun _ _ _ => locationLe_trans
  have distinct : fs.nodes.Pairwise fun a b => a.1 ≠ b.1 :=
    List.pairwise_map.mp fs.distinct
  refine (List.pairwise_mergeSort trans
    (fun a b => locationLe_total a.1 b.1) _).and ?_
  refine ((List.mergeSort_perm _ _).pairwise_iff Ne.symm).mpr ?_
  refine distinct.filterMap _ ?_
  rintro entry entry' ne ⟨way, node⟩ found ⟨way', node'⟩ found' same
  rw [eq_of_wayFrom? found, eq_of_wayFrom? found'] at ne
  exact ne (congrArg (place ++ ·) same)

end Walk

section Names

/-- The name of what is found, where it is a file right in the directory. -/
def fileHere? : Location × Node → Option String
  | ([name], .file _) => some name
  | _ => none

theorem fileHere?_eq_some_iff {entry : Location × Node} :
    fileHere? entry = some name ↔ ∃ bytes, entry = ([name], .file bytes) := by
  constructor
  · intro found
    rw [fileHere?.eq_def] at found
    split at found
    · cases found
      exact ⟨_, rfl⟩
    · cases found
  · rintro ⟨bytes, rfl⟩
    rfl

theorem filesIn_eq (fs : FileSystem) (place : Location) :
    fs.filesIn place = (fs.below place).filterMap fileHere? := by
  rw [filesIn, filesBelow, List.filterMap_filterMap]
  congr 1
  funext ⟨way, node⟩
  cases node <;> match way with | [] | [_] | _ :: _ :: _ => rfl

/-- A name is listed if there is a file with it right in the directory. -/
theorem mem_filesIn_iff (root : name ≠ "/") (up : name ≠ "..") :
    name ∈ fs.filesIn place ↔
      ∃ bytes, fs.node? (place ++ [name]) = some (.file bytes) := by
  simp [filesIn_eq, fileHere?_eq_some_iff, mem_below_name_iff root up,
    node?_eq_some_iff, isFixed_concat root up]

theorem pairwise_filesIn (fs : FileSystem) (place : Location) :
    (fs.filesIn place).Pairwise fun a b => Text.le a b = true ∧ a ≠ b := by
  rw [filesIn_eq]
  refine (pairwise_below fs place).filterMap _ ?_
  intro a b ordered name file name' file'
  obtain ⟨_, rfl⟩ := fileHere?_eq_some_iff.mp file
  obtain ⟨_, rfl⟩ := fileHere?_eq_some_iff.mp file'
  have ne : name ≠ name' := fun same => ordered.2 (by rw [same])
  exact ⟨by simpa [locationLe, ne] using ordered.1, ne⟩

end Names

end FileSystem
end NativeGlue
