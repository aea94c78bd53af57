import SsisCompiler.Proofs.Expression.Grammar
import SsisCompiler.Proofs.Package.Growth

/-!
# What an expression sees of its place

The node that an expression stands at enters the code through the variables of the system only. The
reader asks for the code of one variable after the other, so two places that agree on the variables of
an expression give it the same code, or refuse it for the same cause. The package is the root for every
node of a tree that was entered under a node, and only the name of the task is left to differ.

Results:
* `readsAlike`: the reader does the same at two places that agree on the variables.
* `codeOfTokens_congr`, `compile_congr`: so do the code of tokens and of an expression.
* `compile_ofNode`: an expression without the name of the task has one result in a whole tree, and the
  name and the number of the package are those of the root.
* `compile_ofElement`: so it is in every tree that was read.
-/

namespace SsisCompiler.Expression

open Package (Node NodeId Tree)

/-! ## Places that agree -/

/-- That two places give the variables among some tokens the same code, or refuse them for the same
cause. -/
def Surroundings.Agree (s other : Surroundings) (ts : List Token) : Prop :=
  ∀ scope name, .variable scope name ∈ ts → s.variableCode scope name = other.variableCode scope name

theorem Surroundings.Agree.mono {s other : Surroundings} {ts us : List Token} (h : s.Agree other us)
    (hsub : ts ⊆ us) : s.Agree other ts :=
  fun scope name hmem => h scope name (hsub hmem)

theorem Surroundings.Agree.tail {s other : Surroundings} {token : Token} {ts : List Token}
    (h : s.Agree other (token :: ts)) : s.Agree other ts :=
  h.mono (List.subset_cons_self _ _)

/-- What is left behind an operand are tokens of the row. -/
theorem subset_of_operand {s : Surroundings} {depth : Nat} {ts rest : List Token} {code : String}
    (h : operand s depth ts = .ok (code, rest)) : rest ⊆ ts := by
  obtain ⟨taken, rfl, -⟩ := (readsSoundly s depth).ofOperand h
  exact List.subset_append_right _ _

theorem subset_of_sequence {s : Surroundings} {depth : Nat} {ts rest : List Token} {code : String}
    (h : sequence s depth ts = .ok (code, rest)) : rest ⊆ ts := by
  obtain ⟨taken, rfl, -⟩ := (readsSoundly s depth).ofSequence h
  exact List.subset_append_right _ _

/-! ## The reader at two places -/

/-- Down to a depth the reader does the same at two places, wherever they agree on the variables. -/
structure ReadsAlike (s other : Surroundings) (depth : Nat) : Prop where
  ofOperand : ∀ {ts}, s.Agree other ts → operand s depth ts = operand other depth ts
  ofSequence : ∀ {ts}, s.Agree other ts → sequence s depth ts = sequence other depth ts
  ofSequenceRest : ∀ {ts} code, s.Agree other ts →
    sequenceRest s depth code ts = sequenceRest other depth code ts
  ofArguments : ∀ {ts}, s.Agree other ts → arguments s depth ts = arguments other depth ts
  ofArgumentsRest : ∀ {ts}, s.Agree other ts →
    argumentsRest s depth ts = argumentsRest other depth ts

/-- A word has the same code at two places if its arguments are read alike. -/
theorem operand_word_congr {s other : Surroundings} {depth : Nat} (text : String) {ts : List Token}
    (h : ∀ us, ts = .openParen :: us → arguments s depth us = arguments other depth us) :
    operand s (depth + 1) (.word text :: ts) = operand other (depth + 1) (.word text :: ts) := by
  rw [operand_word, operand_word]
  split
  · rfl
  · rfl
  · rfl
  · rw [h _ rfl]
  · rfl

section Step

variable {s other : Surroundings} {depth : Nat} (ih : ReadsAlike s other depth)
include ih

theorem ReadsAlike.ofOperand_succ {ts : List Token} (h : s.Agree other ts) :
    operand s (depth + 1) ts = operand other (depth + 1) ts := by
  cases ts with
  | nil => rfl
  | cons token ts =>
    cases token with
    | «variable» scope name =>
      rw [operand_variable, operand_variable, h scope name List.mem_cons_self]
    | operator op => rw [operand_operator, operand_operator, ih.ofOperand h.tail]
    | openParen => rw [operand_openParen, operand_openParen, ih.ofSequence h.tail]
    | cast type => rw [operand_cast, operand_cast, ih.ofOperand h.tail]
    | word text =>
      refine operand_word_congr text ?_
      rintro us rfl
      exact ih.ofArguments h.tail.tail
    | _ => rfl

theorem ReadsAlike.ofSequence_succ {ts : List Token} (h : s.Agree other ts) :
    sequence s (depth + 1) ts = sequence other (depth + 1) ts := by
  rw [sequence_succ, sequence_succ, ← ih.ofOperand h]
  cases hfirst : operand s depth ts with
  | error e => rfl
  | ok first =>
    have hrest := ih.ofSequenceRest first.1 (h.mono (subset_of_operand hfirst))
    simp only [hrest]

theorem ReadsAlike.ofSequenceRest_succ {ts : List Token} (code : String) (h : s.Agree other ts) :
    sequenceRest s (depth + 1) code ts = sequenceRest other (depth + 1) code ts := by
  cases ts with
  | nil => rfl
  | cons token ts =>
    cases token with
    | operator op =>
      rw [sequenceRest_operator, sequenceRest_operator, ← ih.ofOperand h.tail]
      cases hnext : operand s depth ts with
      | error e => rfl
      | ok next =>
        have hrest := fun out => ih.ofSequenceRest out (h.tail.mono (subset_of_operand hnext))
        simp only [hrest]
    | _ => rfl

theorem ReadsAlike.ofArgumentsRest_succ {ts : List Token} (h : s.Agree other ts) :
    argumentsRest s (depth + 1) ts = argumentsRest other (depth + 1) ts := by
  rw [argumentsRest_succ, argumentsRest_succ, ← ih.ofSequence h]
  split
  · rfl
  · rfl
  · rename_i arg us hfirst
    have hrest := (h.mono (subset_of_sequence hfirst)).tail
    rw [ih.ofArgumentsRest hrest]
  · rfl

theorem ReadsAlike.ofArguments_succ {ts : List Token} (h : s.Agree other ts) :
    arguments s (depth + 1) ts = arguments other (depth + 1) ts := by
  by_cases hhead : ts.head? = some .closeParen
  · obtain ⟨us, rfl⟩ := List.head?_eq_some_iff.1 hhead
    rfl
  · rw [arguments_of_head_ne hhead, arguments_of_head_ne hhead, ih.ofArgumentsRest h]

end Step

theorem readsAlike (s other : Surroundings) (depth : Nat) : ReadsAlike s other depth := by
  induction depth with
  | zero => constructor <;> intros <;> rfl
  | succ depth ih =>
    exact ⟨ih.ofOperand_succ, ih.ofSequence_succ, ih.ofSequenceRest_succ, ih.ofArguments_succ,
      ih.ofArgumentsRest_succ⟩

theorem codeOfTokens_congr {s other : Surroundings} {ts : List Token} (h : s.Agree other ts) :
    codeOfTokens s ts = codeOfTokens other ts := by
  simp only [codeOfTokens, (readsAlike s other _).ofSequence h]

theorem compile_congr {s other : Surroundings} {expression : String}
    (h : ∀ ts, scan expression = .ok ts → s.Agree other ts) :
    compile s expression = compile other expression := by
  unfold compile
  cases hscan : scan expression with
  | error e => rfl
  | ok ts => simp only [codeOfTokens_congr (h ts hscan)]

/-! ## The name of the task -/

/-- Whether a token is the name of the task, the variable `TaskName` of the system. -/
def Token.isTaskName : Token → Bool
  | .variable scope name => isSystemScope scope && name == "TaskName"
  | _ => false

/-- Whether the name of the task stands in an expression. -/
def readsTaskName (expression : String) : Bool :=
  match scan expression with
  | .ok ts => ts.any Token.isTaskName
  | .error _ => false

example : readsTaskName "@[SYSTEM:: TaskName ] + @TaskName" = true := by decide +kernel

example : readsTaskName "@TaskName + @[User::TaskName] + @[System::PackageName]" = false := by
  decide +kernel

/-- The name of the task is the only variable that shows it. -/
theorem variableCode_eq_of_isTaskName {scope : Option String} {name : String}
    (h : (Token.variable scope name).isTaskName = false) (package : String) (id : Option String)
    (task otherTask : String) :
    Surroundings.variableCode ⟨package, id, task⟩ scope name =
      Surroundings.variableCode ⟨package, id, otherTask⟩ scope name := by
  unfold Surroundings.variableCode
  split
  · rename_i hscope
    have hname : name ≠ "TaskName" := by simpa [Token.isTaskName, hscope] using h
    unfold Surroundings.systemVariable
    split
    · rfl
    · rfl
    · rfl
    · rfl
    · rfl
    · rfl
    · exact absurd rfl hname
    · rfl
  · rfl

theorem agree_of_readsTaskName {expression : String} (h : readsTaskName expression = false)
    {ts : List Token} (hscan : scan expression = .ok ts) (package : String) (id : Option String)
    (task otherTask : String) :
    Surroundings.Agree ⟨package, id, task⟩ ⟨package, id, otherTask⟩ ts := by
  intro scope name hmem
  simp only [readsTaskName, hscan] at h
  have htoken := List.any_eq_false.1 h _ hmem
  exact variableCode_eq_of_isTaskName (by simpa using htoken) package id task otherTask

/-! ## Trees -/

theorem systemVariable_packageId (s : Surroundings) :
    s.systemVariable "PackageID" =
      s.packageId.elim (.error .packageWithoutId) fun id => .ok (CSharp.verbatim id) := by
  simp only [Surroundings.systemVariable]
  cases s.packageId <;> rfl

/-- Going up from any node of a tree made by entering nodes under nodes leads to the root, whatever is
known of the root. -/
theorem ofNode_eq_of_reached {t : Tree} (ht : t.Reached Tree.Has) (root : Node) (id : NodeId) :
    Surroundings.ofNode { t with root } id =
      ⟨root.name.getD "", root.lookup "DTSID", (Package.Tree.node { t with root } id).name.getD ""⟩ :=
  ofNode_eq (t := { t with root }) (fun _ _ h => ht.parent_lt h) id

/-- In a tree that was read, an expression that does not read the name of the task has one result. -/
theorem compile_ofElement (o : Package.Options) (e : Markup.Element) (i j : NodeId)
    {expression : String} (h : readsTaskName expression = false) :
    compile (.ofNode (Package.Reading.ofElement o e).tree i) expression =
      compile (.ofNode (Package.Reading.ofElement o e).tree j) expression := by
  have hplace := ofNode_eq_of_reached (Tree.reached_ofElement o e)
    (Package.Reading.ofElement o e).tree.root
  rw [hplace i, hplace j]
  exact compile_congr fun ts hscan => agree_of_readsTaskName h hscan _ _ _ _

/-- In a tree made by entering nodes under nodes, with any root, an expression that does not read the
name of the task is compiled to the same code at all nodes, or refused at all for the same cause. At two
nodes of one name this is so of every expression. The variables `PackageName` and `PackageID` of the
system are the name and the number of the root at every node. -/
theorem compile_ofNode {t : Tree} (ht : t.Reached Tree.Has) (root : Node) (i j : NodeId) :
    (∀ expression, readsTaskName expression = false →
      compile (.ofNode { t with root } i) expression =
        compile (.ofNode { t with root } j) expression) ∧
    ((Package.Tree.node { t with root } i).name.getD "" =
        (Package.Tree.node { t with root } j).name.getD "" →
      ∀ expression, compile (.ofNode { t with root } i) expression =
        compile (.ofNode { t with root } j) expression) ∧
    ∀ scope, isSystemScope scope = true →
      (Surroundings.ofNode { t with root } i).variableCode scope "PackageName" =
        .ok (CSharp.verbatim (root.name.getD "")) ∧
      (Surroundings.ofNode { t with root } i).variableCode scope "PackageID" =
        (root.lookup "DTSID").elim (.error .packageWithoutId) fun id => .ok (CSharp.verbatim id) := by
  simp only [ofNode_eq_of_reached ht root]
  refine ⟨fun expression h => ?_, fun hname expression => ?_, fun scope hscope => ?_⟩
  · exact compile_congr fun ts hscan => agree_of_readsTaskName h hscan _ _ _ _
  · rw [hname]
  · simp only [Surroundings.variableCode, hscope, if_true]
    exact ⟨rfl, systemVariable_packageId _⟩

/-- A container without a name and a task inside it. -/
def nestedTree : Tree :=
  (Tree.add { root := { kind := "DTS:Executable" } } 0 { kind := "DTS:Executable" }).add 1
    { kind := "DTS:Executable", name := some "Task" }

/-- Under a package that has a name and a number, the two nodes see the same of it. -/
theorem compile_ofNode_nestedTree :
    (nestedTree.Reached Tree.Has ∧
      readsTaskName "@[System::PackageName] + (DT_WSTR, 8) @[system::PackageID]" = false) ∧
      compile (.ofNode { nestedTree with root := identifiedTree.root } 1)
          "@[System::PackageName] + (DT_WSTR, 8) @[system::PackageID]" =
        compile (.ofNode { nestedTree with root := identifiedTree.root } 2)
          "@[System::PackageName] + (DT_WSTR, 8) @[system::PackageID]" ∧
      compile (.ofNode { nestedTree with root := identifiedTree.root } 2)
          "@[System::PackageName] + (DT_WSTR, 8) @[system::PackageID]" =
        .ok "@\"Load\" + Convert.ToString(@\"\x7b1\x7d\")" := by
  have ht : nestedTree.Reached Tree.Has := .add _ (.add _ (.root _) (by decide)) (by decide)
  have hname : readsTaskName "@[System::PackageName] + (DT_WSTR, 8) @[system::PackageID]" = false := by
    decide +kernel
  obtain ⟨hsame, -⟩ := compile_ofNode ht identifiedTree.root 1 2
  exact ⟨⟨ht, hname⟩, hsame _ hname, eq_ok_of_toOption (by decide +kernel)⟩

end SsisCompiler.Expression
