import NativeGlue.Proofs.Stub.Prototypes
import NativeGlue.Stub.Lowering
import NativeGlue.Stub.Render

/-!
# Guards against null in lines of stubs

A line of a stub is text. To tell what it does when some variables are null, it
is read word by word: the condition of an `if`, or of a conditional expression,
is a conjunction of comparisons with null, and it decides whether what stands
behind it is evaluated. Where a condition is not understood, all of the line is
taken to be evaluated.

The lines that are written for a slot are read so: the acquisition, the test
for its failure and the release of a slot whose source may be null are guarded,
and those of other slots are plain.
-/

namespace NativeGlue
namespace Stub

/-! ## Reading a line -/

/-- The words of a text, without semicolons. -/
def words (cs : List Char) : List String :=
  ((Text.fields ' ' (cs.filter fun c => c ≠ ';')).filter
    fun word => word ≠ []).map String.ofList

/-- The words before the first that is `mark`, and those after it. -/
def cut? (mark : String) : List String → Option (List String × List String)
  | [] => none
  | w :: ws =>
      if w = mark then
        some ([], ws)
      else
        (cut? mark ws).map fun (front, back) => (w :: front, back)

section Reading

variable (isNull : String → Bool)

/-- Whether a comparison with null holds, for the operators that are known. -/
def compare? (name : String) : String → Option Bool
  | "==" => some (isNull name)
  | "!=" => some !isNull name
  | _ => none

/-- Whether a condition holds, if it is made of comparisons with null. -/
def holds? : List String → Option Bool
  | [name, operator, "nullptr"] => compare? isNull name operator
  | name :: operator :: "nullptr" :: "&&" :: rest =>
      match compare? isNull name operator, holds? rest with
      | some first, some others => some (first && others)
      | _, _ => none
  | _ => none

/--
What is evaluated of an expression: the side that is chosen, if it is a
conditional expression with a condition that is understood.
-/
def evaluated (ws : List String) : List String :=
  match cut? "?" ws with
  | none => ws
  | some (condition, sides) =>
      match holds? isNull condition, cut? ":" sides with
      | some true, some (chosen, _) => chosen
      | some false, some (_, chosen) => chosen
      | _, _ => ws

/-- The words behind the first `=`, if there is one. -/
def assigned (ws : List String) : List String :=
  ((cut? "=" ws).map Prod.snd).getD ws

/-- The condition of an `if` in front of a line, and what it stands before. -/
def condition? (line : List Char) : Option (List Char × List Char) :=
  if "if (".toList.isPrefixOf line then
    Text.splitFirst? ')' (line.drop "if (".length)
  else
    none

/-- The words of what a line evaluates. -/
def performed (line : String) : List String :=
  match condition? line.toList with
  | none => evaluated isNull (assigned (words line.toList))
  | some (condition, rest) =>
      if holds? isNull (words condition) = some false then []
      else evaluated isNull (assigned (words rest))

end Reading

/-- The names that are passed first in the calls among some words. -/
def firstArguments (ws : List String) : List String :=
  ws.flatMap fun w => (Text.fields '(' w.toList).tail.map fun inside =>
    String.ofList (inside.takeWhile Code.isIdentifierChar)

/-! ## Words -/

section Words

theorem words_append_blank (xs ys : List Char) :
    words (xs ++ ' ' :: ys) = words xs ++ words ys := by
  simp [words, List.filter_append, Text.fields_append_sep]

theorem words_append_semicolon (xs : List Char) :
    words (xs ++ [';']) = words xs := by
  simp [words, List.filter_append]

/-- A text without blanks is a word. -/
theorem words_of_not_mem {word : String} (blank : ' ' ∉ word.toList)
    (semicolon : ';' ∉ word.toList) (ne : word ≠ "") :
    words word.toList = [word] := by
  have kept : (word.toList.filter fun c => c ≠ ';') = word.toList := by
    refine List.filter_eq_self.mpr fun c member => decide_eq_true ?_
    rintro rfl
    exact semicolon member
  have kept_ne : word.toList ≠ [] := by
    simpa using ne
  rw [words, kept, Text.fields_of_not_mem blank]
  simp [kept_ne]

/-- The name of a variable. -/
def IsVariable (name : String) : Prop :=
  IsPlainName name ∧ name ≠ ""

instance (name : String) : Decidable (IsVariable name) :=
  inferInstanceAs (Decidable (_ ∧ _))

theorem IsVariable.not_mem {name : String} (plain : IsVariable name)
    {c : Char} (other : Code.isIdentifierChar c = false) : c ∉ name.toList :=
  plain.1.not_mem other

/-- A variable may have a number behind it. -/
theorem IsVariable.append_toString {name : String} (plain : IsVariable name)
    (n : Nat) : IsVariable (name ++ toString n) := by
  refine ⟨plain.1.append (isPlainName_toString n), fun empty => plain.2 ?_⟩
  have chars := congrArg String.toList empty
  rw [String.toList_append] at chars
  exact String.toList_injective (List.append_eq_nil_iff.mp chars).1

theorem words_of_isVariable {name : String} (plain : IsVariable name) :
    words name.toList = [name] :=
  words_of_not_mem (plain.not_mem rfl) (plain.not_mem rfl) plain.2

/-- The comparison with null that fails if a variable is not null. -/
theorem words_comparison {name : String} (plain : IsVariable name) :
    words (name ++ " == nullptr").toList = [name, "==", "nullptr"] := by
  have text : (name ++ " == nullptr").toList =
      name.toList ++ ' ' :: "== nullptr".toList := by
    simp [String.toList_append]
  rw [text, words_append_blank, words_of_isVariable plain]
  rfl

theorem mem_of_mem_words {cs : List Char} {word : String}
    (among : word ∈ words cs) {c : Char} (inside : c ∈ word.toList) :
    c ∈ cs := by
  obtain ⟨f, field, rfl⟩ := List.mem_map.mp among
  have kept := Text.mem_of_mem_fields (List.mem_filter.mp field).1
    (String.toList_ofList ▸ inside)
  exact (List.mem_filter.mp kept).1

end Words

section Cuts

variable {mark : String} {front back ws : List String}

theorem cut?_append_cons (clear : mark ∉ front) :
    cut? mark (front ++ mark :: back) = some (front, back) := by
  induction front with
  | nil =>
      simp [cut?]
  | cons w front ih =>
      rw [List.mem_cons, not_or] at clear
      rw [List.cons_append, cut?, if_neg (Ne.symm clear.1), ih clear.2]
      rfl

theorem cut?_eq_none (clear : mark ∉ ws) : cut? mark ws = none := by
  induction ws with
  | nil =>
      rfl
  | cons w ws ih =>
      rw [List.mem_cons, not_or] at clear
      rw [cut?, if_neg (Ne.symm clear.1), ih clear.2]
      rfl

/-- A mark that is no word of a text is made of a character not in it. -/
theorem not_mem_words {cs : List Char} {mark : String} {c : Char}
    (inside : c ∈ mark.toList) (clear : c ∉ cs) : mark ∉ words cs :=
  fun among => clear (mem_of_mem_words among inside)

end Cuts

/-! ## Lines of one form -/

section Forms

variable {isNull : String → Bool}

theorem evaluated_of_not_mem {ws : List String} (plain : "?" ∉ ws) :
    evaluated isNull ws = ws := by
  rw [evaluated, cut?_eq_none plain]

/-- Of what is guarded by a variable, the other side is taken if it is null. -/
theorem evaluated_guarded {name : String} (named : name ≠ "?")
    {guarded other : List String} (clear : ":" ∉ guarded) :
    evaluated isNull
        ([name, "!=", "nullptr"] ++ "?" :: (guarded ++ ":" :: other)) =
      if isNull name then other else guarded := by
  have condition : "?" ∉ [name, "!=", "nullptr"] := by
    simp [Ne.symm named]
  rw [evaluated, cut?_append_cons condition]
  simp only [cut?_append_cons clear, holds?, compare?]
  cases isNull name <;> rfl

/-- A line that starts in another way has no condition in front. -/
theorem condition?_of_head? {line : List Char} (start : line.head? ≠ some 'i') :
    condition? line = none := by
  rw [condition?, if_neg]
  cases line with
  | nil => decide
  | cons c cs =>
      have other : 'i' ≠ c := fun same => start (congrArg some same.symm)
      simp [other]

/-- What has neither a choice nor an assignment in it is evaluated whole. -/
theorem evaluated_assigned {cs : List Char} (choice : '?' ∉ cs)
    (equals : '=' ∉ cs) :
    evaluated isNull (assigned (words cs)) = words cs := by
  rw [assigned, cut?_eq_none (not_mem_words (c := '=') (by decide) equals)]
  exact evaluated_of_not_mem (not_mem_words (c := '?') (by decide) choice)

/-- What a line assigns is what it evaluates. -/
theorem performed_assignment {target value : String}
    (fresh : '=' ∉ target.toList) (start : target.toList.head? ≠ some 'i') :
    performed isNull (target ++ " = " ++ value ++ ";") =
      evaluated isNull (words value.toList) := by
  have text : (target ++ " = " ++ value ++ ";").toList =
      target.toList ++ ' ' :: (['='] ++ ' ' :: (value.toList ++ [';'])) := by
    simp [String.toList_append]
  have unconditional : condition? (target ++ " = " ++ value ++ ";").toList =
      none := by
    apply condition?_of_head?
    rw [text, List.head?_append]
    cases eq : target.toList.head? with
    | none => simp
    | some c => simpa [eq] using start
  have read : words (target ++ " = " ++ value ++ ";").toList =
      words target.toList ++ "=" :: words value.toList := by
    rw [text, words_append_blank, words_append_blank, words_append_semicolon]
    rfl
  rw [performed, unconditional]
  simp only [read, assigned]
  rw [cut?_append_cons (not_mem_words (c := '=') (by decide) fresh)]
  rfl

/-- A call behind an `if` is made unless its variable is null. -/
theorem performed_if {name call : String} (plain : IsVariable name)
    (choice : '?' ∉ call.toList) (equals : '=' ∉ call.toList) :
    performed isNull ("if (" ++ name ++ " != nullptr) " ++ call) =
      if isNull name then [] else words call.toList := by
  let condition := name.toList ++ ' ' :: "!= nullptr".toList
  have text : ("if (" ++ name ++ " != nullptr) " ++ call).toList =
      "if (".toList ++ (condition ++ ')' :: ' ' :: call.toList) := by
    simp [condition, String.toList_append]
  have closed : ')' ∉ condition := by
    have name := plain.not_mem (c := ')') rfl
    simp [condition, name]
  have found : condition? ("if (" ++ name ++ " != nullptr) " ++ call).toList =
      some (condition, ' ' :: call.toList) := by
    rw [text, condition?, if_pos (by simp)]
    exact Text.splitFirst?_eq_some_iff.mpr ⟨closed, rfl⟩
  have compared : words condition = [name, "!=", "nullptr"] := by
    rw [words_append_blank, words_of_isVariable plain]
    rfl
  have behind : words (' ' :: call.toList) = words call.toList :=
    words_append_blank [] call.toList
  rw [performed, found]
  simp only [compared, behind, evaluated_assigned choice equals, holds?,
    compare?]
  cases isNull name <;> rfl

theorem performed_plain {line : String} (start : line.toList.head? ≠ some 'i')
    (choice : '?' ∉ line.toList) (equals : '=' ∉ line.toList) :
    performed isNull line = words line.toList := by
  rw [performed, condition?_of_head? start]
  exact evaluated_assigned choice equals

/-- An assignment that is guarded by a variable. -/
theorem performed_guarded {target name guarded other : String}
    (fresh : '=' ∉ target.toList) (start : target.toList.head? ≠ some 'i')
    (plain : IsVariable name) (clear : ':' ∉ guarded.toList) :
    performed isNull
        (target ++ " = " ++ (name ++ " != nullptr ? " ++ guarded ++ " : "
          ++ other) ++ ";") =
      if isNull name then words other.toList else words guarded.toList := by
  have text : (name ++ " != nullptr ? " ++ guarded ++ " : "
        ++ other).toList =
      name.toList ++ ' ' :: ("!= nullptr ?".toList ++ ' ' ::
        (guarded.toList ++ ' ' :: ([':'] ++ ' ' :: other.toList))) := by
    simp [String.toList_append]
  have read : words (name ++ " != nullptr ? " ++ guarded ++ " : "
        ++ other).toList =
      [name, "!=", "nullptr"]
        ++ "?" :: (words guarded.toList ++ ":" :: words other.toList) := by
    simp only [text, words_append_blank, words_of_isVariable plain]
    rfl
  have named : name ≠ "?" := by
    rintro rfl
    exact plain.not_mem (c := '?') rfl (by decide)
  rw [performed_assignment fresh start, read]
  exact evaluated_guarded named (not_mem_words (c := ':') (by decide) clear)

example (x : Bool) :
    performed (fun name => name = "a0" && x)
        "jobject g0 = a0 != nullptr ? env->NewGlobalRef(a0) : nullptr;" =
      if x then ["nullptr"] else ["env->NewGlobalRef(a0)"] := by
  cases x <;> decide

end Forms

/-! ## First arguments -/

section Arguments

theorem firstArguments_append (xs ys : List String) :
    firstArguments (xs ++ ys) = firstArguments xs ++ firstArguments ys :=
  List.flatMap_append

/-- The name of a function, as far as the parenthesis behind it. -/
structure IsFunction (front : String) : Prop where
  blank : ' ' ∉ front.toList
  semicolon : ';' ∉ front.toList
  parenthesis : '(' ∉ front.toList

instance (front : String) : Decidable (IsFunction front) :=
  decidable_of_iff (' ' ∉ front.toList ∧ ';' ∉ front.toList ∧
      '(' ∉ front.toList)
    ⟨fun h => ⟨h.1, h.2.1, h.2.2⟩,
      fun h => ⟨h.blank, h.semicolon, h.parenthesis⟩⟩

variable {front name inside : String}

/-- The name of a primitive in names of functions is plain. -/
theorem isPlainName_functionName (kind : Primitive) :
    IsPlainName kind.functionName := by
  cases kind <;> decide

/-- A function whose name has the name of a primitive in it. -/
theorem IsFunction.functionName {before after : String}
    (left : IsFunction before) (right : IsFunction after)
    (kind : Primitive) :
    IsFunction (before ++ kind.functionName ++ after) := by
  have plain := isPlainName_functionName kind
  have clear {c : Char} (other : Code.isIdentifierChar c = false)
      (outside : c ∉ before.toList ∧ c ∉ after.toList) :
      c ∉ (before ++ kind.functionName ++ after).toList := by
    simp only [String.toList_append, List.mem_append, not_or]
    exact ⟨⟨outside.1, plain.not_mem other⟩, outside.2⟩
  exact ⟨clear rfl ⟨left.blank, right.blank⟩,
    clear rfl ⟨left.semicolon, right.semicolon⟩,
    clear rfl ⟨left.parenthesis, right.parenthesis⟩⟩

theorem words_call (function : IsFunction front)
    (blank : ' ' ∉ inside.toList) (semicolon : ';' ∉ inside.toList) :
    words (front ++ "(" ++ inside).toList = [front ++ "(" ++ inside] := by
  refine words_of_not_mem ?_ ?_ ?_
  · simp [String.toList_append, function.blank, blank]
  · simp [String.toList_append, function.semicolon, semicolon]
  · intro empty
    have chars := congrArg String.toList empty
    simp [String.toList_append] at chars

/-- What is passed first, in a call and in the calls among its arguments. -/
theorem firstArguments_call (function : IsFunction front) :
    firstArguments [front ++ "(" ++ inside] =
      (Text.fields '(' inside.toList).map fun field =>
        String.ofList (field.takeWhile Code.isIdentifierChar) := by
  have text : (front ++ "(" ++ inside).toList =
      front.toList ++ '(' :: inside.toList := by
    simp [String.toList_append]
  simp only [firstArguments, List.flatMap_cons, List.flatMap_nil,
    List.append_nil, text, Text.fields_append_cons function.parenthesis,
    List.tail_cons]

section OneName

variable {mark : String} (function : IsFunction front)
  (plain : IsVariable name) (other : mark = "," ∨ mark = ")")

include plain other in
/-- What stands neither in names nor for a mark behind an argument. -/
theorem not_mem_argument {c : Char}
    (foreign : Code.isIdentifierChar c = false) (outside : c ∉ [',', ')']) :
    c ∉ (name ++ mark).toList := by
  have absent := plain.not_mem foreign
  rw [List.mem_cons, List.mem_singleton, not_or] at outside
  rcases other with rfl | rfl <;>
    simp [String.toList_append, absent, outside]

include function plain other in
theorem words_call_name :
    words (front ++ "(" ++ (name ++ mark)).toList =
      [front ++ "(" ++ (name ++ mark)] :=
  words_call function (not_mem_argument plain other rfl (by decide))
    (not_mem_argument plain other rfl (by decide))

include function plain other in
/-- A call with a name in front of its other arguments, or as the only one. -/
theorem firstArguments_call_name :
    firstArguments [front ++ "(" ++ (name ++ mark)] = [name] := by
  have single := Text.fields_of_not_mem
    (not_mem_argument (c := '(') plain other rfl (by decide))
  have taken : (name ++ mark).toList.takeWhile Code.isIdentifierChar =
      name.toList := by
    rw [String.toList_append, List.takeWhile_append_of_pos plain.1]
    rcases other with rfl | rfl <;> simp <;> rfl
  rw [firstArguments_call function, single, List.map_singleton, taken,
    String.ofList_toList]

end OneName

/-- A call with a name as its first argument, and with others. -/
theorem firstArguments_call_append (function : IsFunction front)
    (plain : IsVariable name) (rest : String) :
    firstArguments (words (front ++ "(" ++ (name ++ ", " ++ rest)).toList) =
      name :: firstArguments (words rest.toList) := by
  have text : (front ++ "(" ++ (name ++ ", " ++ rest)).toList =
      (front ++ "(" ++ (name ++ ",")).toList ++ ' ' :: rest.toList := by
    simp [String.toList_append]
  rw [text, words_append_blank, firstArguments_append,
    words_call_name function plain (.inl rfl),
    firstArguments_call_name function plain (.inl rfl), List.singleton_append]

end Arguments

/-! ## Lines that slots are written as -/

namespace Slot

/-- A slot with a variable and a source, nullable for an argument only. -/
structure IsPlain (s : Slot) : Prop where
  var : IsVariable s.var
  source : IsVariable s.source
  isArgument : s.nullable = true → s.isArgument = true

variable {s : Slot} {isNull : String → Bool}

/-- The type of the variable of a slot, and the variable. -/
theorem target_acquireLine (plain : s.IsPlain) :
    '=' ∉ (s.acquisition.1 ++ " " ++ s.var).toList ∧
      (s.acquisition.1 ++ " " ++ s.var).toList.head? ≠ some 'i' := by
  have type : '=' ∉ s.acquisition.1.toList ∧
      s.acquisition.1.toList.head? ≠ some 'i' ∧
      s.acquisition.1.toList ≠ [] := by
    unfold acquisition
    cases s.kind with
    | arrayElements kind =>
        dsimp only
        cases kind <;> decide
    | localArray kind =>
        dsimp only
        cases kind <;> decide
    | _ =>
        dsimp only
        decide
  obtain ⟨equals, start, ne⟩ := type
  have var := plain.var.not_mem (c := '=') rfl
  simp only [String.toList_append, List.append_assoc]
  refine ⟨by simp [equals, var], ?_⟩
  rwa [List.head?_append_of_ne_nil _ ne]

/-- The expression of a slot has no choice in it. -/
theorem not_mem_acquisition (plain : s.IsPlain) :
    '?' ∉ s.acquisition.2.toList ∧ ':' ∉ s.acquisition.2.toList := by
  have clear {c : Char} (other : Code.isIdentifierChar c = false)
      (among : c ∈ ['?', ':']) : c ∉ s.acquisition.2.toList := by
    have source := plain.source.not_mem other
    have function := fun kind => (isPlainName_functionName kind).not_mem other
    simp only [List.mem_cons, List.not_mem_nil, or_false] at among
    unfold acquisition
    cases s.kind <;> rcases among with rfl | rfl <;>
      simp [String.toList_append, source, function]
  exact ⟨clear rfl (by simp), clear rfl (by simp)⟩

/-- The acquisition of a slot is skipped if its source may be and is null. -/
theorem performed_acquireLine (plain : s.IsPlain) :
    performed isNull s.acquireLine =
      if s.nullable && isNull s.source then ["nullptr"]
      else words s.acquisition.2.toList := by
  obtain ⟨fresh, start⟩ := target_acquireLine plain
  obtain ⟨choice, clear⟩ := not_mem_acquisition plain
  cases nullable : s.nullable with
  | true =>
      have line : s.acquireLine =
          s.acquisition.1 ++ " " ++ s.var ++ " = "
            ++ (s.source ++ " != nullptr ? " ++ s.acquisition.2 ++ " : "
              ++ "nullptr") ++ ";" := by
        rw [acquireLine, nullable, plain.isArgument nullable]
        simp [String.append_assoc]
      rw [line, performed_guarded fresh start plain.source clear,
        Bool.true_and]
      rfl
  | false =>
      have line : s.acquireLine =
          s.acquisition.1 ++ " " ++ s.var ++ " = " ++ s.acquisition.2
            ++ ";" := by
        rw [acquireLine, nullable]
        rfl
      rw [line, performed_assignment fresh start]
      exact evaluated_of_not_mem (not_mem_words (c := '?') (by decide) choice)

/-- A slot cannot have failed if its source may be and is null. -/
theorem holds?_failed (plain : s.IsPlain) :
    holds? isNull (words s.failed.toList) =
      some (!(s.nullable && isNull s.source) && isNull s.var) := by
  cases nullable : s.nullable with
  | true =>
      have text : s.failed.toList = s.source.toList ++ ' ' ::
          ("!= nullptr &&".toList
            ++ ' ' :: (s.var ++ " == nullptr").toList) := by
        simp [failed, nullable, String.toList_append]
      rw [text, words_append_blank, words_append_blank,
        words_comparison plain.var, words_of_isVariable plain.source,
        Bool.true_and]
      rfl
  | false =>
      have text : s.failed = s.var ++ " == nullptr" := by
        rw [failed, nullable]
        rfl
      rw [text, words_comparison plain.var]
      simp [holds?, compare?]

/-- The release of a slot is skipped if its source may and it is null. -/
theorem performed_releaseLine (plain : s.IsPlain) (mode : ReleaseMode) :
    performed isNull (s.releaseLine mode) =
      if s.nullable && isNull s.var then []
      else words (s.releaseCall mode).toList := by
  have clear {c : Char} (other : Code.isIdentifierChar c = false)
      (among : c ∈ ['?', '=']) : c ∉ (s.releaseCall mode).toList := by
    have source := plain.source.not_mem other
    have var := plain.var.not_mem other
    have function := fun kind => (isPlainName_functionName kind).not_mem other
    simp only [List.mem_cons, List.not_mem_nil, or_false] at among
    unfold releaseCall
    cases s.kind <;> rcases among with rfl | rfl <;> cases mode <;>
      simp [String.toList_append, source, var, function]
  have choice := clear (c := '?') rfl (by simp)
  have equals := clear (c := '=') rfl (by simp)
  cases nullable : s.nullable with
  | true =>
      rw [releaseLine, nullable, if_pos rfl,
        performed_if plain.var choice equals, Bool.true_and]
  | false =>
      have start : (s.releaseCall mode).toList.head? ≠ some 'i' := by
        unfold releaseCall
        cases s.kind <;> simp [String.toList_append]
      rw [releaseLine, nullable]
      exact performed_plain start choice equals

/-- What an argument is taken from is what the call is made on. -/
theorem firstArguments_acquisition (plain : s.IsPlain)
    (argument : s.isArgument = true) :
    firstArguments (words s.acquisition.2.toList) = [s.source] := by
  have second : firstArguments (words "nullptr)".toList) = [] := by
    decide
  unfold isArgument at argument
  unfold acquisition
  cases eq : s.kind with
  | stringChars =>
      have function : IsFunction "env->GetStringUTFChars" := by
        decide
      have text : "env->GetStringUTFChars(" ++ s.source ++ ", nullptr)" =
          "env->GetStringUTFChars" ++ "("
            ++ (s.source ++ ", " ++ "nullptr)") :=
        String.toList_injective (by simp [String.toList_append])
      dsimp only
      rw [text, firstArguments_call_append function plain.source, second]
  | arrayElements kind =>
      have function :
          IsFunction ("env->Get" ++ kind.functionName ++ "ArrayElements") :=
        .functionName (by decide) (by decide) kind
      have text : "env->Get" ++ kind.functionName ++ "ArrayElements("
            ++ s.source ++ ", nullptr)" =
          "env->Get" ++ kind.functionName ++ "ArrayElements" ++ "("
            ++ (s.source ++ ", " ++ "nullptr)") :=
        String.toList_injective (by simp [String.toList_append])
      dsimp only
      rw [text, firstArguments_call_append function plain.source, second]
  | globalRef =>
      have function : IsFunction "env->NewGlobalRef" := by
        decide
      have text : "env->NewGlobalRef(" ++ s.source ++ ")" =
          "env->NewGlobalRef" ++ "(" ++ (s.source ++ ")") :=
        String.toList_injective (by simp [String.toList_append])
      dsimp only
      rw [text, words_call_name function plain.source (.inr rfl),
        firstArguments_call_name function plain.source (.inr rfl)]
  | localString | localArray _ =>
      rw [eq] at argument
      cases argument

end Slot

end Stub
end NativeGlue
