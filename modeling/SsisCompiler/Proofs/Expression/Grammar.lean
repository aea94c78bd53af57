import SsisCompiler.Expression.Code
import SsisCompiler.Proofs.Package.DocumentOrder

/-!
# The grammar of expressions

The grammar as rules: a sequence is an operand, or a sequence with an operator and an operand behind
it. Each rule says which tokens it stands for and which code they become. The reader of `Code` goes
through the tokens from the left with a bounded depth; it accepts exactly the rows of tokens that the
rules derive, and the code is the one of the rules.

Results:
* `readsSoundly`: whatever the reader takes from the left of a row of tokens is derived by the rules.
* `Derives.accepted`: whatever the rules derive is read, whatever stands behind it.
* `codeOfTokens_eq_ok_iff`: a row of tokens has a code exactly if the rules derive it with that code.
* `Derives.unique`: a row of tokens has at most one code.
* `Derives.induction_on_code`: how a property is shown of all code.
* `compile_eq_ok_iff_derives`: an expression is compiled exactly if its text has tokens and the rules
  derive them.
-/

namespace SsisCompiler.Expression

open Package (NodeId Tree)

/-! ## Rules -/

/-- The variables of the system that have code. -/
inductive SystemCode (s : Surroundings) : String → String → Prop
  | startTime : SystemCode s "StartTime" "DateTime.Now"
  | containerStartTime : SystemCode s "ContainerStartTime" "DateTime.Now"
  | machineName : SystemCode s "MachineName" "Environment.MachineName"
  | userName : SystemCode s "UserName" "Environment.UserName"
  | packageName : SystemCode s "PackageName" (CSharp.verbatim s.packageName)
  | packageId {id : String} (h : s.packageId = some id) :
    SystemCode s "PackageID" (CSharp.verbatim id)
  | taskName : SystemCode s "TaskName" (CSharp.verbatim s.taskName)

/-- What the rules derive. -/
inductive Phrase
  | operand
  | sequence
  deriving DecidableEq, Repr

/-- The rules: the tokens that make up a phrase, and their code. -/
inductive Derives (s : Surroundings) : Phrase → List Token → String → Prop
  | userVariable {scope : Option String} (name : String) (h : isSystemScope scope = false) :
    Derives s .operand [.variable scope name] (CSharp.variableIdent name)
  | systemVariable {scope : Option String} {name code : String} (h : isSystemScope scope = true)
    (hcode : SystemCode s name code) : Derives s .operand [.variable scope name] code
  | string (literal : String) : Derives s .operand [.string literal] literal
  | number (literal : String) : Derives s .operand [.number literal] literal
  | unary {op : Operator} {ts : List Token} {code : String}
    (h : op = .minus ∨ op = .not ∨ op = .complement) (hx : Derives s .operand ts code) :
    Derives s .operand (.operator op :: ts) (op.symbol ++ code)
  | group {ts : List Token} {code : String} (hx : Derives s .sequence ts code) :
    Derives s .operand (.openParen :: (ts ++ [.closeParen])) (paren code)
  | cast {type : String} {ts : List Token} {code out : String} (hx : Derives s .operand ts code)
    (h : castCode type code = .ok out) : Derives s .operand (.cast type :: ts) out
  | trueWord {word : String} (h : Text.upper word = "TRUE") : Derives s .operand [.word word] "true"
  | falseWord {word : String} (h : Text.upper word = "FALSE") : Derives s .operand [.word word] "false"
  | nullWord {word : String} (type : String) (h : Text.upper word = "NULL") :
    Derives s .operand [.word word, .cast type] "null"
  /-- A call, given the tokens and the code of each argument. -/
  | call {word code : String} (args : List (List Token × String))
    (hargs : ∀ arg ∈ args, Derives s .sequence arg.1 arg.2)
    (h : functionCode (Text.upper word) (args.map (·.2)) = .ok code) :
    Derives s .operand
      (.word word :: .openParen :: ([Token.comma].intercalate (args.map (·.1)) ++ [.closeParen])) code
  | single {ts : List Token} {code : String} (hx : Derives s .operand ts code) :
    Derives s .sequence ts code
  | join {ts us : List Token} {code next : String} (op : Operator)
    (hx : Derives s .sequence ts code) (hy : Derives s .operand us next) :
    Derives s .sequence (ts ++ .operator op :: us) (code ++ " " ++ op.symbol ++ " " ++ next)

/-- The functions that have code. -/
def functionNames : List String := [
  "GETDATE", "GETUTCDATE", "UPPER", "LOWER", "TRIM", "LTRIM", "RTRIM", "LEN", "REPLACE", "SUBSTRING",
  "LEFT", "RIGHT", "ISNULL", "ABS", "CEILING", "FLOOR", "SQRT", "POWER", "ROUND", "YEAR", "MONTH",
  "DAY", "DATEADD", "DATEPART", "DATEDIFF"]

theorem mem_functionNames {name code : String} {args : List String}
    (h : functionCode name args = .ok code) : name ∈ functionNames := by
  unfold functionCode at h
  split at h
  case h_26 => cases h
  all_goals decide

/-- The tokens of arguments, with a comma between any two, and the code of each. -/
def DerivesArguments (s : Surroundings) (ts : List Token) (codes : List String) : Prop :=
  ∃ args : List (List Token × String), (∀ arg ∈ args, Derives s .sequence arg.1 arg.2) ∧
    args.map (·.2) = codes ∧ [Token.comma].intercalate (args.map (·.1)) = ts

theorem isUnary_iff (op : Operator) :
    op.isUnary = true ↔ op = .minus ∨ op = .not ∨ op = .complement := by
  cases op <;> simp [Operator.isUnary]

/-! ## Variables -/

theorem systemVariable_eq_ok_iff (s : Surroundings) (name code : String) :
    s.systemVariable name = .ok code ↔ SystemCode s name code := by
  constructor
  · intro h
    unfold Surroundings.systemVariable at h
    split at h
    · obtain rfl := Except.ok.inj h
      exact .startTime
    · obtain rfl := Except.ok.inj h
      exact .containerStartTime
    · obtain rfl := Except.ok.inj h
      exact .machineName
    · obtain rfl := Except.ok.inj h
      exact .userName
    · obtain rfl := Except.ok.inj h
      exact .packageName
    · split at h
      · rename_i hid
        obtain rfl := Except.ok.inj h
        exact .packageId hid
      · cases h
    · obtain rfl := Except.ok.inj h
      exact .taskName
    · cases h
  · intro h
    cases h with
    | packageId hid => simp [Surroundings.systemVariable, hid]
    | _ => rfl

theorem derives_of_variableCode {s : Surroundings} {scope : Option String} {name code : String}
    (h : s.variableCode scope name = .ok code) :
    Derives s .operand [.variable scope name] code := by
  unfold Surroundings.variableCode at h
  split at h
  · rename_i hscope
    exact .systemVariable hscope ((systemVariable_eq_ok_iff s name code).1 h)
  · rename_i hscope
    obtain rfl := Except.ok.inj h
    exact .userVariable name (by simpa using hscope)

/-! ## Single steps of the reader -/

section Equations

variable (s : Surroundings) (depth : Nat) (ts : List Token)

theorem operand_variable (scope : Option String) (name : String) :
    operand s (depth + 1) (.variable scope name :: ts) =
      match s.variableCode scope name with
      | .error e => .error e
      | .ok code => .ok (code, ts) := rfl

theorem operand_operator (op : Operator) :
    operand s (depth + 1) (.operator op :: ts) =
      if op.isUnary then
        match operand s depth ts with
        | .error e => .error e
        | .ok (code, ts) => .ok (op.symbol ++ code, ts)
      else .error (.noOperand (some (.operator op))) := rfl

theorem operand_openParen :
    operand s (depth + 1) (.openParen :: ts) =
      match sequence s depth ts with
      | .error e => .error e
      | .ok (code, .closeParen :: ts) => .ok (paren code, ts)
      | .ok (_, ts) => .error (.expectedClose ts.head?) := rfl

theorem operand_cast (type : String) :
    operand s (depth + 1) (.cast type :: ts) =
      match operand s depth ts with
      | .error e => .error e
      | .ok (code, ts) =>
        match castCode type code with
        | .error e => .error e
        | .ok code => .ok (code, ts) := rfl

theorem operand_word (text : String) :
    operand s (depth + 1) (.word text :: ts) =
      match Text.upper text, ts with
      | "TRUE", _ => .ok ("true", ts)
      | "FALSE", _ => .ok ("false", ts)
      | "NULL", .cast _ :: ts => .ok ("null", ts)
      | name, .openParen :: ts =>
        match arguments s depth ts with
        | .error e => .error e
        | .ok (args, ts) =>
          match functionCode name args with
          | .error e => .error e
          | .ok code => .ok (code, ts)
      | _, _ => .error (.unknownWord text) := rfl

theorem sequence_succ :
    sequence s (depth + 1) ts =
      if atEnd ts then .error .emptyOperand
      else
        match operand s depth ts with
        | .error e => .error e
        | .ok (code, ts) => sequenceRest s depth code ts := rfl

theorem sequenceRest_operator (code : String) (op : Operator) :
    sequenceRest s (depth + 1) code (.operator op :: ts) =
      if atEnd ts then .error .endsWithOperator
      else
        match operand s depth ts with
        | .error e => .error e
        | .ok (next, ts) => sequenceRest s depth (code ++ " " ++ op.symbol ++ " " ++ next) ts := rfl

theorem argumentsRest_succ :
    argumentsRest s (depth + 1) ts =
      match sequence s depth ts with
      | .error e => .error e
      | .ok (arg, .closeParen :: ts) => .ok ([arg], ts)
      | .ok (arg, .comma :: ts) =>
        match argumentsRest s depth ts with
        | .error e => .error e
        | .ok (args, ts) => .ok (arg :: args, ts)
      | .ok (_, ts) => .error (.expectedCommaOrClose ts.head?) := rfl

variable {s depth ts}

theorem sequenceRest_of_atEnd (h : atEnd ts = true) (depth : Nat) (code : String) :
    sequenceRest s depth code ts = .ok (code, ts) := by
  cases depth with
  | zero => rfl
  | succ depth =>
    unfold sequenceRest
    rw [if_pos h]

theorem arguments_of_head_ne (h : ts.head? ≠ some .closeParen) :
    arguments s (depth + 1) ts = argumentsRest s depth ts := by
  cases ts with
  | nil => rfl
  | cons token ts =>
    cases token with
    | closeParen => exact absurd rfl h
    | _ => rfl

end Equations

/-! ## What is read is derived -/

/-- Whatever is read down to a depth is derived by the rules. -/
structure ReadsSoundly (s : Surroundings) (depth : Nat) : Prop where
  ofOperand : ∀ {ts code rest}, operand s depth ts = .ok (code, rest) →
    ∃ taken, ts = taken ++ rest ∧ Derives s .operand taken code
  ofSequence : ∀ {ts code rest}, sequence s depth ts = .ok (code, rest) →
    ∃ taken, ts = taken ++ rest ∧ Derives s .sequence taken code
  ofSequenceRest : ∀ {before code ts out rest}, Derives s .sequence before code →
    sequenceRest s depth code ts = .ok (out, rest) →
    ∃ taken, ts = taken ++ rest ∧ Derives s .sequence (before ++ taken) out
  ofArguments : ∀ {ts codes rest}, arguments s depth ts = .ok (codes, rest) →
    ∃ taken, ts = taken ++ .closeParen :: rest ∧ DerivesArguments s taken codes
  ofArgumentsRest : ∀ {ts codes rest}, argumentsRest s depth ts = .ok (codes, rest) →
    ∃ taken, ts = taken ++ .closeParen :: rest ∧ DerivesArguments s taken codes ∧ codes ≠ []

theorem derivesArguments_nil (s : Surroundings) : DerivesArguments s [] [] :=
  ⟨[], by simp, rfl, rfl⟩

theorem derivesArguments_single {s : Surroundings} {ts : List Token} {code : String}
    (h : Derives s .sequence ts code) : DerivesArguments s ts [code] :=
  ⟨[(ts, code)], by simpa using h, rfl, by simp⟩

theorem derivesArguments_cons {s : Surroundings} {ts us : List Token} {code : String}
    {codes : List String} (h : Derives s .sequence ts code) (hothers : DerivesArguments s us codes)
    (hne : codes ≠ []) : DerivesArguments s (ts ++ .comma :: us) (code :: codes) := by
  obtain ⟨args, hargs, rfl, rfl⟩ := hothers
  refine ⟨(ts, code) :: args, List.forall_mem_cons.2 ⟨h, hargs⟩, rfl, ?_⟩
  obtain ⟨arg, args, rfl⟩ := List.exists_cons_of_ne_nil (by simpa using hne)
  simp [List.intercalate]

section Step

variable {s : Surroundings} {depth : Nat} (ih : ReadsSoundly s depth)
include ih

/-- An operand, by the token that it begins with. -/
theorem ReadsSoundly.ofOperand_succ {ts rest : List Token} {code : String}
    (h : operand s (depth + 1) ts = .ok (code, rest)) :
    ∃ taken, ts = taken ++ rest ∧ Derives s .operand taken code := by
  cases ts with
  | nil => cases h
  | cons token ts =>
    cases token with
    | «variable» scope name =>
      rw [operand_variable] at h
      split at h
      · cases h
      · rename_i c hc
        cases h
        exact ⟨[.variable scope name], rfl, derives_of_variableCode hc⟩
    | string literal =>
      obtain ⟨rfl, rfl⟩ := Prod.mk.inj (Except.ok.inj h)
      exact ⟨[.string literal], rfl, .string literal⟩
    | number literal =>
      obtain ⟨rfl, rfl⟩ := Prod.mk.inj (Except.ok.inj h)
      exact ⟨[.number literal], rfl, .number literal⟩
    | operator op =>
      rw [operand_operator] at h
      split at h
      · rename_i hop
        split at h
        · cases h
        · rename_i c us hx
          cases h
          obtain ⟨taken, rfl, hd⟩ := ih.ofOperand hx
          exact ⟨.operator op :: taken, rfl, .unary ((isUnary_iff op).1 hop) hd⟩
      · cases h
    | openParen =>
      rw [operand_openParen] at h
      split at h
      · cases h
      · rename_i c us hx
        cases h
        obtain ⟨taken, rfl, hd⟩ := ih.ofSequence hx
        exact ⟨.openParen :: (taken ++ [.closeParen]), by simp, .group hd⟩
      · cases h
    | cast type =>
      rw [operand_cast] at h
      split at h
      · cases h
      · rename_i c us hx
        split at h
        · cases h
        · rename_i out hout
          cases h
          obtain ⟨taken, rfl, hd⟩ := ih.ofOperand hx
          exact ⟨.cast type :: taken, rfl, .cast hd hout⟩
    | word text =>
      rw [operand_word] at h
      split at h
      · rename_i hword
        cases h
        exact ⟨[.word text], rfl, .trueWord hword⟩
      · rename_i hword
        cases h
        exact ⟨[.word text], rfl, .falseWord hword⟩
      · rename_i type us hword
        cases h
        exact ⟨[.word text, .cast type], rfl, .nullWord type hword⟩
      · split at h
        · cases h
        · rename_i codes us hcodes
          split at h
          · cases h
          · rename_i out hout
            cases h
            obtain ⟨_, rfl, args, hargs, rfl, rfl⟩ := ih.ofArguments hcodes
            exact ⟨_, by simp, .call args hargs hout⟩
      · cases h
    | closeParen => cases h
    | comma => cases h

theorem ReadsSoundly.ofSequenceRest_succ {before ts rest : List Token} {code out : String}
    (hbefore : Derives s .sequence before code)
    (h : sequenceRest s (depth + 1) code ts = .ok (out, rest)) :
    ∃ taken, ts = taken ++ rest ∧ Derives s .sequence (before ++ taken) out := by
  by_cases hend : atEnd ts = true
  · rw [sequenceRest_of_atEnd hend] at h
    cases h
    exact ⟨[], rfl, by simpa using hbefore⟩
  · cases ts with
    | nil => exact absurd rfl hend
    | cons token ts =>
      cases token with
      | operator op =>
        rw [sequenceRest_operator] at h
        split at h
        · cases h
        · split at h
          · cases h
          · rename_i next us hnext
            obtain ⟨operandTokens, rfl, hoperand⟩ := ih.ofOperand hnext
            obtain ⟨taken, rfl, hd⟩ := ih.ofSequenceRest (.join op hbefore hoperand) h
            exact ⟨.operator op :: (operandTokens ++ taken), by simp, by simpa using hd⟩
      | comma => exact absurd rfl hend
      | closeParen => exact absurd rfl hend
      | _ => cases h

theorem ReadsSoundly.ofSequence_succ {ts rest : List Token} {code : String}
    (h : sequence s (depth + 1) ts = .ok (code, rest)) :
    ∃ taken, ts = taken ++ rest ∧ Derives s .sequence taken code := by
  rw [sequence_succ] at h
  split at h
  · cases h
  · split at h
    · cases h
    · rename_i first us hfirst
      obtain ⟨firstTokens, rfl, hd⟩ := ih.ofOperand hfirst
      obtain ⟨taken, rfl, hrest⟩ := ih.ofSequenceRest (.single hd) h
      exact ⟨firstTokens ++ taken, by simp, hrest⟩

theorem ReadsSoundly.ofArgumentsRest_succ {ts rest : List Token} {codes : List String}
    (h : argumentsRest s (depth + 1) ts = .ok (codes, rest)) :
    ∃ taken, ts = taken ++ .closeParen :: rest ∧ DerivesArguments s taken codes ∧ codes ≠ [] := by
  rw [argumentsRest_succ] at h
  split at h
  · cases h
  · rename_i code us hlast
    cases h
    obtain ⟨taken, rfl, hd⟩ := ih.ofSequence hlast
    exact ⟨taken, rfl, derivesArguments_single hd, by simp⟩
  · rename_i code us hfirst
    split at h
    · cases h
    · rename_i others vs hothers
      cases h
      obtain ⟨taken, rfl, hd⟩ := ih.ofSequence hfirst
      obtain ⟨takenRest, rfl, hrest, hne⟩ := ih.ofArgumentsRest hothers
      exact ⟨taken ++ .comma :: takenRest, by simp, derivesArguments_cons hd hrest hne, by simp⟩
  · cases h

theorem ReadsSoundly.ofArguments_succ {ts rest : List Token} {codes : List String}
    (h : arguments s (depth + 1) ts = .ok (codes, rest)) :
    ∃ taken, ts = taken ++ .closeParen :: rest ∧ DerivesArguments s taken codes := by
  by_cases hhead : ts.head? = some .closeParen
  · obtain ⟨us, rfl⟩ := List.head?_eq_some_iff.1 hhead
    obtain ⟨rfl, rfl⟩ := Prod.mk.inj (Except.ok.inj h)
    exact ⟨[], rfl, derivesArguments_nil s⟩
  · rw [arguments_of_head_ne hhead] at h
    obtain ⟨taken, hts, hargs, -⟩ := ih.ofArgumentsRest h
    exact ⟨taken, hts, hargs⟩

end Step

/-- Whatever the reader takes from the left of a row of tokens is derived by the rules. -/
theorem readsSoundly (s : Surroundings) (depth : Nat) : ReadsSoundly s depth := by
  induction depth with
  | zero =>
    constructor
    · intro ts code rest h
      cases h
    · intro ts code rest h
      cases h
    · intro before code ts out rest hbefore h
      cases h
      exact ⟨[], rfl, by simpa using hbefore⟩
    · intro ts codes rest h
      cases h
    · intro ts codes rest h
      cases h
  | succ depth ih =>
    exact ⟨ih.ofOperand_succ, ih.ofSequence_succ, ih.ofSequenceRest_succ, ih.ofArguments_succ,
      ih.ofArgumentsRest_succ⟩

/-! ## What is derived is read -/

/-- No phrase begins where a sequence would end. -/
theorem Derives.atEnd_append {s : Surroundings} {phrase : Phrase} {ts : List Token} {code : String}
    (h : Derives s phrase ts code) (rest : List Token) : atEnd (ts ++ rest) = false := by
  induction h generalizing rest with
  | single _ ih => exact ih rest
  | join op _ _ ihx _ =>
    rw [List.append_assoc]
    exact ihx _
  | _ => rfl

theorem Derives.length_pos {s : Surroundings} {phrase : Phrase} {ts : List Token} {code : String}
    (h : Derives s phrase ts code) : 0 < ts.length := by
  have hend := h.atEnd_append []
  cases ts with
  | nil => simp [atEnd] at hend
  | cons => simp

/-- That a phrase is read, whatever stands behind it, if the depth suffices. Reading a sequence comes to
where its last operand ends. -/
def Accepted (s : Surroundings) : Phrase → List Token → String → Prop
  | .operand, ts, code => ∀ rest depth, 4 * ts.length ≤ depth + 3 →
    operand s depth (ts ++ rest) = .ok (code, rest)
  | .sequence, ts, code => ∀ rest depth, 4 * ts.length ≤ depth + 2 →
    ∃ depthLeft, depth ≤ depthLeft + ts.length ∧
      sequence s depth (ts ++ rest) = sequenceRest s depthLeft code rest

section Accept

variable {s : Surroundings}

theorem Accepted.sequence_eq {ts : List Token} {code : String} (h : Accepted s .sequence ts code)
    (rest : List Token) (hrest : atEnd rest = true) (depth : Nat)
    (hdepth : 4 * ts.length ≤ depth + 2) :
    sequence s depth (ts ++ rest) = .ok (code, rest) := by
  obtain ⟨depthLeft, -, heq⟩ := h rest depth hdepth
  rw [heq, sequenceRest_of_atEnd hrest]

/-- An operand is read from its first token on with one level less. -/
theorem accepted_operand {token : Token} {ts : List Token} {code : String}
    (h : ∀ rest depth, 4 * ts.length ≤ depth →
      operand s (depth + 1) (token :: (ts ++ rest)) = .ok (code, rest)) :
    Accepted s .operand (token :: ts) code := by
  intro rest depth hdepth
  rw [List.length_cons] at hdepth
  obtain ⟨depth, rfl⟩ : ∃ d, depth = d + 1 := ⟨depth - 1, by omega⟩
  exact h rest depth (by omega)

theorem accepted_single {ts : List Token} {code : String} (hd : Derives s .operand ts code)
    (h : Accepted s .operand ts code) : Accepted s .sequence ts code := by
  intro rest depth hdepth
  have hpos := hd.length_pos
  obtain ⟨depth, rfl⟩ : ∃ d, depth = d + 1 := ⟨depth - 1, by omega⟩
  refine ⟨depth, by omega, ?_⟩
  rw [sequence_succ, hd.atEnd_append rest, h rest depth (by omega)]
  rfl

theorem accepted_join {ts us : List Token} {code next : String} (op : Operator)
    (hx : Accepted s .sequence ts code) (hd : Derives s .operand us next)
    (hy : Accepted s .operand us next) :
    Accepted s .sequence (ts ++ .operator op :: us)
      (code ++ " " ++ op.symbol ++ " " ++ next) := by
  intro rest depth hdepth
  rw [List.length_append, List.length_cons] at hdepth ⊢
  obtain ⟨depthLeft, hleft, heq⟩ := hx (.operator op :: (us ++ rest)) depth (by omega)
  obtain ⟨depthLeft, rfl⟩ : ∃ d, depthLeft = d + 1 := ⟨depthLeft - 1, by omega⟩
  refine ⟨depthLeft, by omega, ?_⟩
  rw [List.append_assoc, List.cons_append, heq]
  rw [sequenceRest_operator, hd.atEnd_append rest, hy rest depthLeft (by omega)]
  rfl

theorem accepted_group {ts : List Token} {code : String} (h : Accepted s .sequence ts code) :
    Accepted s .operand (.openParen :: (ts ++ [.closeParen])) (paren code) := by
  refine accepted_operand fun rest depth hdepth => ?_
  rw [List.length_append, List.length_singleton] at hdepth
  have hread := h.sequence_eq (.closeParen :: rest) rfl depth (by omega)
  rw [List.append_assoc, List.singleton_append, operand_openParen, hread]

theorem argumentTokens_cons (arg next : List Token × String) (args : List (List Token × String)) :
    [Token.comma].intercalate ((arg :: next :: args).map (·.1)) =
      arg.1 ++ .comma :: [Token.comma].intercalate ((next :: args).map (·.1)) := by
  simp [List.intercalate_cons_cons]

/-- Arguments are read up to the closing parenthesis. -/
theorem argumentsRest_eq {args : List (List Token × String)} (hne : args ≠ [])
    (hargs : ∀ arg ∈ args, Accepted s .sequence arg.1 arg.2) (rest : List Token) (depth : Nat)
    (hdepth : 4 * ([Token.comma].intercalate (args.map (·.1))).length < depth) :
    argumentsRest s depth ([Token.comma].intercalate (args.map (·.1)) ++ .closeParen :: rest) =
      .ok (args.map (·.2), rest) := by
  induction args generalizing depth with
  | nil => exact absurd rfl hne
  | cons arg args ih =>
    obtain ⟨depth, rfl⟩ : ∃ d, depth = d + 1 := ⟨depth - 1, by omega⟩
    have harg := hargs arg List.mem_cons_self
    cases args with
    | nil =>
      simp only [List.map_cons, List.map_nil, List.intercalate_singleton] at hdepth ⊢
      have hlast := harg.sequence_eq (.closeParen :: rest) rfl depth (by omega)
      rw [argumentsRest_succ, hlast]
    | cons next args =>
      rw [argumentTokens_cons] at hdepth ⊢
      rw [List.length_append, List.length_cons] at hdepth
      have hothers := ih (by simp) (fun a ha => hargs a (List.mem_cons_of_mem _ ha)) depth (by omega)
      have hfirst := harg.sequence_eq (.comma :: ([Token.comma].intercalate
        ((next :: args).map (·.1)) ++ .closeParen :: rest)) rfl depth (by omega)
      rw [List.append_assoc, List.cons_append, argumentsRest_succ, hfirst]
      simp only [hothers]
      rfl

theorem arguments_eq {args : List (List Token × String)}
    (hd : ∀ arg ∈ args, Derives s .sequence arg.1 arg.2)
    (hargs : ∀ arg ∈ args, Accepted s .sequence arg.1 arg.2) (rest : List Token) (depth : Nat)
    (hdepth : 4 * ([Token.comma].intercalate (args.map (·.1))).length + 1 < depth) :
    arguments s depth ([Token.comma].intercalate (args.map (·.1)) ++ .closeParen :: rest) =
      .ok (args.map (·.2), rest) := by
  obtain ⟨depth, rfl⟩ : ∃ d, depth = d + 1 := ⟨depth - 1, by omega⟩
  cases args with
  | nil => rfl
  | cons arg args =>
    have hread := argumentsRest_eq (List.cons_ne_nil arg args) hargs rest depth (by omega)
    have hbegin : ∃ us, [Token.comma].intercalate ((arg :: args).map (·.1)) = arg.1 ++ us := by
      cases args with
      | nil => exact ⟨[], by simp⟩
      | cons next args => exact ⟨_, argumentTokens_cons arg next args⟩
    obtain ⟨us, hus⟩ := hbegin
    have hend := (hd arg List.mem_cons_self).atEnd_append (us ++ .closeParen :: rest)
    rw [← List.append_assoc, ← hus] at hend
    -- the first argument does not begin with the parenthesis that ends an empty list
    rw [← hread, arguments_of_head_ne]
    intro hhead
    obtain ⟨vs, hvs⟩ := List.head?_eq_some_iff.1 hhead
    rw [hvs] at hend
    cases hend

/-- A word with arguments is a call, unless it is a truth value. -/
theorem operand_call {word : String} (htrue : Text.upper word ≠ "TRUE")
    (hfalse : Text.upper word ≠ "FALSE") {depth : Nat} {ts rest : List Token} {codes : List String}
    (h : arguments s depth ts = .ok (codes, rest)) :
    operand s (depth + 1) (.word word :: .openParen :: ts) =
      match functionCode (Text.upper word) codes with
      | .error e => .error e
      | .ok code => .ok (code, rest) := by
  rw [operand_word]
  simp only [h]

theorem accepted_call {word code : String} {args : List (List Token × String)}
    (hd : ∀ arg ∈ args, Derives s .sequence arg.1 arg.2)
    (hargs : ∀ arg ∈ args, Accepted s .sequence arg.1 arg.2)
    (h : functionCode (Text.upper word) (args.map (·.2)) = .ok code) :
    Accepted s .operand
      (.word word :: .openParen :: ([Token.comma].intercalate (args.map (·.1)) ++ [.closeParen]))
      code := by
  refine accepted_operand fun rest depth hdepth => ?_
  rw [List.length_cons, List.length_append, List.length_singleton] at hdepth
  have hread := arguments_eq hd hargs rest depth (by omega)
  have hname := mem_functionNames h
  have htrue : Text.upper word ≠ "TRUE" := fun hword => absurd (hword ▸ hname) (by decide)
  have hfalse : Text.upper word ≠ "FALSE" := fun hword => absurd (hword ▸ hname) (by decide)
  rw [List.cons_append, List.append_assoc, List.singleton_append,
    operand_call htrue hfalse hread, h]

end Accept

/-- Whatever the rules derive is read, whatever stands behind it. -/
theorem Derives.accepted {s : Surroundings} {phrase : Phrase} {ts : List Token} {code : String}
    (h : Derives s phrase ts code) : Accepted s phrase ts code := by
  induction h with
  | userVariable name h =>
    exact accepted_operand fun rest depth _ => by
      simp [operand_variable, Surroundings.variableCode, h]
  | @systemVariable scope name code h hcode =>
    have hname := (systemVariable_eq_ok_iff s name code).2 hcode
    exact accepted_operand fun rest depth _ => by
      simp [operand_variable, Surroundings.variableCode, h, hname]
  | string literal => exact accepted_operand fun rest depth _ => rfl
  | number literal => exact accepted_operand fun rest depth _ => rfl
  | @unary op ts code h hx ih =>
    exact accepted_operand fun rest depth hdepth => by
      simp [operand_operator, (isUnary_iff op).2 h, ih rest depth (by omega)]
  | group hx ih => exact accepted_group ih
  | cast hx h ih =>
    exact accepted_operand fun rest depth hdepth => by
      simp [operand_cast, ih rest depth (by omega), h]
  | trueWord h => exact accepted_operand fun rest depth _ => by simp [operand_word, h]
  | falseWord h => exact accepted_operand fun rest depth _ => by simp [operand_word, h]
  | nullWord type h => exact accepted_operand fun rest depth _ => by simp [operand_word, h]
  | call args hargs h ih => exact accepted_call hargs ih h
  | single hx ih => exact accepted_single hx ih
  | join op hx hy ihx ihy => exact accepted_join op ihx hy ihy

/-! ## Expressions -/

theorem codeOfTokens_eq_ok_iff (s : Surroundings) (ts : List Token) (code : String) :
    codeOfTokens s ts = .ok code ↔ Derives s .sequence ts code := by
  constructor
  · intro h
    unfold codeOfTokens at h
    split at h
    · cases h
    · split at h
      · cases h
      · rename_i out hread
        cases h
        obtain ⟨taken, rfl, hd⟩ := (readsSoundly s _).ofSequence hread
        rwa [List.append_nil]
      · cases h
  · intro h
    have hread := h.accepted.sequence_eq [] rfl (4 * ts.length + 4) (by omega)
    rw [List.append_nil] at hread
    have hne : ts.isEmpty = false := by
      cases ts with
      | nil => exact absurd h.length_pos (by simp)
      | cons => rfl
    simp [codeOfTokens, hne, hread]

/-- A row of tokens has at most one code. -/
theorem Derives.unique {s : Surroundings} {ts : List Token} {code other : String}
    (h : Derives s .sequence ts code) (hother : Derives s .sequence ts other) : code = other := by
  have hcode := (codeOfTokens_eq_ok_iff s ts code).2 h
  rw [(codeOfTokens_eq_ok_iff s ts other).2 hother] at hcode
  exact (Except.ok.inj hcode).symm

theorem compile_eq_ok_iff (s : Surroundings) (expression code : String) :
    compile s expression = .ok code ↔
      ∃ ts, scan expression = .ok ts ∧ Derives s .sequence ts code := by
  unfold compile
  cases scan expression with
  | error e => simp
  | ok ts =>
    simp only [Except.ok.injEq, exists_eq_left', ← codeOfTokens_eq_ok_iff]
    cases codeOfTokens s ts with
    | error e => simp
    | ok out => simp

theorem eq_ok_of_toOption {ε α : Type} {result : Except ε α} {a : α}
    (h : result.toOption = some a) : result = .ok a := by
  cases result with
  | error e => cases h
  | ok b => rw [Option.some.inj h]

/-! ## Properties of all code -/

/-- The code of the operands that have no parts, given the tokens of an expression. -/
inductive Leaf (s : Surroundings) (ts : List Token) : String → Prop
  | string {literal : String} (h : .string literal ∈ ts) : Leaf s ts literal
  | number {literal : String} (h : .number literal ∈ ts) : Leaf s ts literal
  | userVariable {scope : Option String} {name : String} (h : .variable scope name ∈ ts) :
    Leaf s ts (CSharp.variableIdent name)
  | packageName : Leaf s ts (CSharp.verbatim s.packageName)
  | packageId {id : String} (h : s.packageId = some id) : Leaf s ts (CSharp.verbatim id)
  | taskName : Leaf s ts (CSharp.verbatim s.taskName)

theorem Leaf.mono {s : Surroundings} {ts us : List Token} (hsub : ts ⊆ us) {code : String}
    (h : Leaf s ts code) : Leaf s us code := by
  cases h with
  | string h => exact .string (hsub h)
  | number h => exact .number (hsub h)
  | userVariable h => exact .userVariable (hsub h)
  | packageName => exact .packageName
  | packageId h => exact .packageId h
  | taskName => exact .taskName

/-- The code that is the same in every expression. -/
def fixedCodes : List String :=
  ["true", "false", "null", "DateTime.Now", "Environment.MachineName", "Environment.UserName"]

/-- A property that code has if its parts have it. -/
structure Compositional (P : String → Prop) : Prop where
  ofFixed : ∀ code ∈ fixedCodes, P code
  ofUnary : ∀ {op : Operator} {code}, op.isUnary = true → P code → P (op.symbol ++ code)
  ofGroup : ∀ {code}, P code → P (paren code)
  ofCast : ∀ {type code out}, castCode type code = .ok out → P code → P out
  ofCall : ∀ {name args code}, functionCode name args = .ok code → (∀ arg ∈ args, P arg) → P code
  ofJoin : ∀ (op : Operator) {code next}, P code → P next →
    P (code ++ " " ++ op.symbol ++ " " ++ next)

theorem subset_argumentTokens {args : List (List Token × String)} {arg : List Token × String}
    (h : arg ∈ args) : arg.1 ⊆ [Token.comma].intercalate (args.map (·.1)) := by
  induction args with
  | nil => cases h
  | cons first args ih =>
    cases args with
    | nil =>
      obtain rfl := List.mem_singleton.1 h
      simp
    | cons next args =>
      rw [argumentTokens_cons]
      rcases List.mem_cons.1 h with rfl | h
      · exact List.subset_append_left _ _
      · exact List.Subset.trans (List.subset_cons_of_subset _ (ih h)) (List.subset_append_right _ _)

/-- A compositional property that the operands without parts have is one of the whole code. -/
theorem Derives.induction_on_code {s : Surroundings} {P : String → Prop} (hP : Compositional P)
    {phrase : Phrase} {ts : List Token} {code : String} (h : Derives s phrase ts code)
    (hleaf : ∀ c, Leaf s ts c → P c) : P code := by
  induction h with
  | userVariable name h => exact hleaf _ (.userVariable List.mem_cons_self)
  | systemVariable h hcode =>
    cases hcode with
    | packageName => exact hleaf _ .packageName
    | packageId hid => exact hleaf _ (.packageId hid)
    | taskName => exact hleaf _ .taskName
    | _ => exact hP.ofFixed _ (by decide)
  | string literal => exact hleaf _ (.string List.mem_cons_self)
  | number literal => exact hleaf _ (.number List.mem_cons_self)
  | @unary op ts code h hx ih =>
    exact hP.ofUnary ((isUnary_iff op).2 h)
      (ih fun c hc => hleaf c (hc.mono (List.subset_cons_self _ _)))
  | group hx ih =>
    refine hP.ofGroup (ih fun c hc => hleaf c (hc.mono ?_))
    exact List.subset_cons_of_subset _ (List.subset_append_left _ _)
  | cast hx h ih =>
    exact hP.ofCast h (ih fun c hc => hleaf c (hc.mono (List.subset_cons_self _ _)))
  | trueWord h => exact hP.ofFixed _ (by decide)
  | falseWord h => exact hP.ofFixed _ (by decide)
  | nullWord type h => exact hP.ofFixed _ (by decide)
  | call args hargs h ih =>
    refine hP.ofCall h fun c hc => ?_
    obtain ⟨arg, harg, rfl⟩ := List.mem_map.1 hc
    refine ih arg harg fun c hc => hleaf c (hc.mono ?_)
    exact List.subset_cons_of_subset _ (List.subset_cons_of_subset _
      (List.subset_append_of_subset_left _ (subset_argumentTokens harg)))
  | single hx ih => exact ih hleaf
  | join op hx hy ihx ihy =>
    refine hP.ofJoin op (ihx fun c hc => hleaf c (hc.mono (List.subset_append_left _ _)))
      (ihy fun c hc => hleaf c (hc.mono ?_))
    exact List.Subset.trans (List.subset_cons_self _ _) (List.subset_append_right _ _)

/-! ## Packages -/

theorem node_of_parent?_eq_none {t : Tree} {i : Nat} (h : t.parent? i = none) :
    t.node i = t.root := by
  have hentry : t.entry? i = none := by simpa [Tree.parent?] using h
  simp [Package.Tree.node, hentry]

/-- Going from parent to parent ends at the root, if every parent comes before its children. -/
theorem node_last_ancestor {t : Tree} (ht : ∀ i p : Nat, t.parent? i = some p → p < i) {steps : Nat}
    (i : Nat) (h : i ≤ steps) :
    t.node ((t.ancestorsWithin steps i).getLast?.getD i) = t.root := by
  induction steps generalizing i with
  | zero =>
    obtain rfl : i = 0 := by omega
    rfl
  | succ steps ih =>
    cases hparent : t.parent? i with
    | none => simpa [Tree.ancestorsWithin, hparent] using node_of_parent?_eq_none hparent
    | some p =>
      have hlt := ht i p hparent
      have hp := ih p (by omega)
      simp only [Tree.ancestorsWithin, hparent, List.getLast?_cons, Option.getD_some]
      exact hp

/-- The package of every expression is the root, if every parent comes before its children. -/
theorem ofNode_eq {t : Tree} (ht : ∀ i p : Nat, t.parent? i = some p → p < i) (id : NodeId) :
    Surroundings.ofNode t id =
      ⟨t.root.name.getD "", t.root.lookup "DTSID", (t.node id).name.getD ""⟩ := by
  have hpackage : t.node ((t.ancestors id).getLast?.getD id) = t.root := by
    cases hparent : t.parent? id with
    | none => simpa [Tree.ancestors, Tree.size, Tree.ancestorsWithin, hparent] using
        node_of_parent?_eq_none hparent
    | some p => exact node_last_ancestor ht id (Nat.le_of_lt (Tree.lt_size_of_parent? hparent))
  simp only [Surroundings.ofNode, hpackage]

/-- An expression is compiled exactly if its text has tokens and the rules derive all of them as one
sequence, and then the code is the one of the rules, which derive no second code. In a tree in which
every parent comes before its children, as in every tree that was read, the package that the rules
speak of is the root. -/
theorem compile_eq_ok_iff_derives (t : Tree) (id : NodeId) (expression : String) :
    (∀ code, compile (.ofNode t id) expression = .ok code ↔
      ∃ ts, scan expression = .ok ts ∧ Derives (.ofNode t id) .sequence ts code) ∧
    (∀ ts code other, Derives (.ofNode t id) .sequence ts code →
      Derives (.ofNode t id) .sequence ts other → other = code) ∧
    ((∀ i p : Nat, t.parent? i = some p → p < i) → Surroundings.ofNode t id =
      ⟨t.root.name.getD "", t.root.lookup "DTSID", (t.node id).name.getD ""⟩) :=
  ⟨compile_eq_ok_iff _ expression, fun _ _ _ h hother => hother.unique h,
    fun ht => ofNode_eq ht id⟩

/-- A package with an identifier and one task. -/
def identifiedTree : Tree where
  root := { kind := "DTS:Executable", name := some "Load", properties := [("DTSID", "\x7b1\x7d")] }
  entries := #[⟨0, { kind := "DTS:Executable", name := some "Task" }⟩]

theorem compile_eq_ok_iff_derives_identifiedTree :
    (∃ ts, scan "REPLACE(@[System::PackageID], \"1\", -@x) + (DT_WSTR, 5) 2" = .ok ts ∧
      Derives (.ofNode identifiedTree 1) .sequence ts
        "(@\"\x7b1\x7d\").Replace(\"1\", -x) + Convert.ToString(2)") ∧
      (Surroundings.ofNode identifiedTree 1).packageId = some "\x7b1\x7d" := by
  obtain ⟨hiff, -, hroot⟩ := compile_eq_ok_iff_derives identifiedTree 1
    "REPLACE(@[System::PackageID], \"1\", -@x) + (DT_WSTR, 5) 2"
  refine ⟨(hiff _).1 (eq_ok_of_toOption (by decide +kernel)), ?_⟩
  rw [hroot]
  · decide +kernel
  · intro i p h
    rcases i with _ | _ | i
    · cases h
    · cases h
      decide
    · simp [Tree.parent?, Tree.entry?, identifiedTree] at h

end SsisCompiler.Expression
