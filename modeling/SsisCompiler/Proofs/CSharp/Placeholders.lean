import SsisCompiler.CSharp.Method
import SsisCompiler.Proofs.CSharp.Unmarked

/-!
# Placeholders in the text of a method

A line is marked if it is a comment that begins with the mark. In the text of a method the marked lines
are exactly the first lines of its placeholders, if the mark stands in nothing else that the method is
made of.

Results:
* `markedLines_renderAll`: the marked lines of a text are those of its lines.
* `marksOf_placeholder`: a placeholder has one marked line, however many lines it takes.
* `Statement.marksOf_lines`: only placeholders have marked lines.
* `Method.marksOf_lines`: a method has a marked line for each placeholder in its body.
-/

namespace SsisCompiler.CSharp

/-! ## Marked lines -/

/-- Whether a line is a comment that begins with the mark, behind any spaces. -/
def isMarkedLine (line : List Char) : Bool :=
  "// UNTRANSLATED".toList.isPrefixOf (line.dropWhile (· == ' '))

/-- How many lines of a text are marked. -/
def markedLines (text : String) : Nat :=
  (Text.split (· == '\n') text.toList).countP isMarkedLine

theorem markedLines_append_newline (s t : String) :
    markedLines (s ++ "\n" ++ t) = markedLines s + markedLines t := by
  have htext : (s ++ "\n" ++ t).toList = s.toList ++ '\n' :: t.toList := by simp
  rw [markedLines, htext, Text.split_append_cons rfl, List.countP_append]
  rfl

/-- A marked line holds the mark. -/
theorem infix_of_isMarkedLine {line : List Char} (h : isMarkedLine line = true) :
    placeholderMark.toList <:+: line := by
  have hmark : placeholderMark.toList <:+: "// UNTRANSLATED".toList := ⟨"// ".toList, [], by decide⟩
  exact (hmark.trans (List.isPrefixOf_iff_prefix.1 h).isInfix).trans
    (List.dropWhile_suffix _).isInfix

theorem markedLines_of_unmarked {text : String} (h : Unmarked text) : markedLines text = 0 := by
  rw [markedLines, List.countP_eq_zero]
  intro line hline hmarked
  rw [unmarked_iff] at h
  exact h ((infix_of_isMarkedLine hmarked).trans (Text.infix_of_mem_split hline))

/-! ## Lines -/

/-- Whether a text is nothing but spaces. -/
def isSpaces (text : String) : Bool :=
  text.toList.all (· == ' ')

theorem isSpaces_deeperBy {indent : String} (h : isSpaces indent = true) (depth : Nat) :
    isSpaces (deeperBy indent depth) = true := by
  induction depth with
  | zero => exact h
  | succ depth ih =>
    simp only [isSpaces, deeperBy, deeper, String.toList_append, List.all_append] at ih ⊢
    rw [ih]
    rfl

theorem endsOutside_of_isSpaces {text : String} (h : isSpaces text = true) :
    endsOutside text = true := by
  rw [endsOutside, Option.all_eq_true]
  intro c hc
  have hspace := List.all_eq_true.1 h c (List.mem_of_getLast? hc)
  obtain rfl := beq_iff_eq.1 hspace
  decide

namespace Line

/-- How many lines of a line's text are marked; the text may have line feeds in it. -/
def marks (line : Line) : Nat :=
  markedLines (line.indent ++ line.text)

theorem marks_of_unmarked {line : Line} (hindent : isSpaces line.indent = true)
    (h : Unmarked line.text) : line.marks = 0 := by
  refine markedLines_of_unmarked ?_
  have hspaces : Unmarked line.indent := by
    refine unmarked_of_outside fun c hc => ?_
    obtain rfl := beq_iff_eq.1 (List.all_eq_true.1 hindent c hc)
    decide
  exact (unmarked_append_of_ends (endsOutside_of_isSpaces hindent)).2 ⟨hspaces, h⟩

end Line

/-- How many lines of some lines' text are marked. -/
def marksOf : List Line → Nat
  | [] => 0
  | line :: lines => line.marks + marksOf lines

theorem marksOf_cons (line : Line) (lines : List Line) :
    marksOf (line :: lines) = line.marks + marksOf lines := rfl

theorem marksOf_append (a b : List Line) : marksOf (a ++ b) = marksOf a + marksOf b := by
  induction a with
  | nil => rw [List.nil_append, marksOf, Nat.zero_add]
  | cons line a ih => rw [List.cons_append, marksOf_cons, marksOf_cons, ih, Nat.add_assoc]

theorem marksOf_of_unmarked {lines : List Line}
    (h : ∀ line ∈ lines, isSpaces line.indent = true ∧ Unmarked line.text) : marksOf lines = 0 := by
  induction lines with
  | nil => rfl
  | cons line lines ih =>
    obtain ⟨⟨hindent, hline⟩, hlines⟩ := List.forall_mem_cons.1 h
    rw [marksOf_cons, Line.marks_of_unmarked hindent hline, ih hlines]

theorem marksOf_single {indent text : String} (hindent : isSpaces indent = true)
    (h : Unmarked text) : marksOf [⟨indent, text⟩] = 0 :=
  marksOf_of_unmarked (List.forall_mem_singleton.2 ⟨hindent, h⟩)

/-- The marked lines of a text are those of its lines. -/
theorem markedLines_renderAll (lines : List Line) :
    markedLines (Line.renderAll lines) = marksOf lines := by
  induction lines with
  | nil => rfl
  | cons line lines ih =>
    rw [Line.renderAll_cons, markedLines_append_newline, ih, marksOf_cons]
    rfl

/-! ## Comments -/

theorem unmarked_commentText {line : String} (h : Unmarked line) : Unmarked (commentText line) := by
  unfold commentText
  split
  · decide
  · simp +decide [h]

theorem marksOf_comment {indent text : String} (hindent : isSpaces indent = true)
    (h : Unmarked text) : marksOf (comment indent text) = 0 := by
  unfold comment
  split
  · exact marksOf_single hindent (by decide)
  · refine marksOf_of_unmarked fun line hline => ?_
    obtain ⟨text', htext', rfl⟩ := List.mem_map.1 hline
    exact ⟨hindent, unmarked_commentText (h.of_isInfix (Text.infix_of_mem_lines htext').1)⟩

/-- The first line of a text that begins with the mark begins with it, and the others stand behind
the mark. -/
theorem lines_mark (rest : String) :
    ∃ first others, Text.lines (placeholderMark ++ rest) = first :: others ∧
      placeholderMark.toList <+: first.toList ∧
      ∀ line ∈ others, line.toList <:+: rest.toList := by
  obtain ⟨piece, pieces, hsplit⟩ :=
    List.exists_cons_of_ne_nil (Text.split_ne_nil (· == '\n') rest.toList)
  have hmark : ∀ c ∈ placeholderMark.toList, (c == '\n') = false := by
    intro c hc
    rw [beq_eq_false_iff_ne]
    rintro rfl
    exact absurd hc (by decide)
  have hpieces := Text.split_append_of_not hmark hsplit
  have hbehind := (Text.split_eq_cons hsplit).2
  rw [Text.lines, String.toList_append, hpieces]
  cases pieces with
  | nil =>
    refine ⟨String.ofList (placeholderMark.toList ++ piece), [], rfl, ?_, by simp⟩
    rw [String.toList_ofList]
    exact List.prefix_append _ _
  | cons next pieces =>
    refine ⟨_, _, rfl, ?_, fun line hline => ?_⟩
    · rw [String.toList_ofList]
      exact Text.prefix_dropFinalReturn (by decide)
    · obtain ⟨cs, hcs, rfl⟩ := List.mem_map.1 hline
      obtain ⟨other, hother, hbegins⟩ := Text.exists_of_mem_linesOfPieces hcs
      rw [String.toList_ofList]
      exact hbegins.isInfix.trans (hbehind other hother)

theorem marks_commentText {indent first : String} (hindent : isSpaces indent = true)
    (hmark : placeholderMark.toList <+: first.toList) (hline : '\n' ∉ first.toList) :
    Line.marks ⟨indent, commentText first⟩ = 1 := by
  have hne : first.isEmpty = false := by
    rw [← Bool.not_eq_true, String.isEmpty_iff]
    rintro rfl
    exact absurd hmark (by decide)
  have htext : (indent ++ commentText first).toList =
      indent.toList ++ ("// ".toList ++ first.toList) := by
    simp [commentText, hne]
  have hwhole : Text.split (· == '\n') (indent.toList ++ ("// ".toList ++ first.toList)) =
      [indent.toList ++ ("// ".toList ++ first.toList)] := by
    refine Text.split_of_not fun c hc => ?_
    rw [beq_eq_false_iff_ne]
    rintro rfl
    rcases List.mem_append.1 hc with hc | hc
    · exact absurd (List.all_eq_true.1 hindent _ hc) (by decide)
    · rcases List.mem_append.1 hc with hc | hc
      · exact absurd hc (by decide)
      · exact hline hc
  have hmarked : isMarkedLine (indent.toList ++ ("// ".toList ++ first.toList)) = true := by
    rw [isMarkedLine, List.dropWhile_append_of_pos (List.all_eq_true.1 hindent),
      List.isPrefixOf_iff_prefix]
    exact (List.prefix_append_right_inj "// ".toList).2 hmark
  rw [Line.marks, markedLines, htext, hwhole, List.countP_singleton, hmarked]
  rfl

/-- A placeholder has one marked line, however many lines it takes. -/
theorem marksOf_placeholder {indent rest : String} (hindent : isSpaces indent = true)
    (h : Unmarked rest) : marksOf (comment indent (placeholderMark ++ rest)) = 1 := by
  obtain ⟨first, others, hlines, hmark, hothers⟩ := lines_mark rest
  have hne : (placeholderMark ++ rest).isEmpty = false := by
    rw [← Bool.not_eq_true, String.isEmpty_iff]
    intro hempty
    exact absurd (congrArg String.toList hempty) (by simp [placeholderMark])
  have hline := (Text.infix_of_mem_lines (hlines ▸ List.mem_cons_self)).2
  rw [comment, hne, if_neg Bool.false_ne_true, hlines, List.map_cons, marksOf_cons,
    marks_commentText hindent hmark hline, marksOf_of_unmarked]
  intro line hmem
  obtain ⟨other, hother, rfl⟩ := List.mem_map.1 hmem
  exact ⟨hindent, unmarked_commentText (h.of_isInfix (hothers other hother))⟩

/-! ## Statements -/

namespace Statement

/-- Whether a statement is a placeholder. -/
def isPlaceholder : Statement → Bool
  | .placeholder _ _ => true
  | _ => false

/-- That the mark stands in nothing that a statement is made of. -/
def IsUnmarked : Statement → Prop
  | .declare v => Unmarked v.declaration
  | .assign name value => Unmarked name ∧ Unmarked value
  | .call method arguments => Unmarked method ∧ ∀ v ∈ arguments, Unmarked v.name
  | .acquire v => Unmarked v.declaration
  | .forEach typeName name collection => Unmarked typeName ∧ Unmarked name ∧ Unmarked collection
  | .openBlock => True
  | .closeBlock => True
  | .code text => Unmarked text
  | .comment text => Unmarked text
  | .placeholder subject text => Unmarked subject ∧ Unmarked text

/-- Only placeholders have marked lines. -/
theorem marksOf_lines {indent : String} (hindent : isSpaces indent = true) {statement : Statement}
    (h : statement.IsUnmarked) :
    marksOf (statement.lines indent) = if statement.isPlaceholder = true then 1 else 0 := by
  cases statement with
  | declare v => exact marksOf_single hindent (by simp +decide [show Unmarked v.declaration from h])
  | assign name value => exact marksOf_single hindent (by simp +decide [h.1, h.2])
  | call method arguments =>
    refine marksOf_single hindent ?_
    have harguments : Unmarked (", ".intercalate (arguments.map (·.argument))) := by
      refine unmarked_intercalate (by decide) (by decide) (by decide) (by decide) fun text htext => ?_
      obtain ⟨v, hv, rfl⟩ := List.mem_map.1 htext
      unfold Variable.argument
      simp +decide [h.2 v hv]
    simp +decide [h.1, harguments]
  | acquire v => exact marksOf_single hindent (by simp +decide [show Unmarked v.declaration from h])
  | forEach typeName name collection =>
    exact marksOf_single hindent (by simp +decide [h.1, h.2.1, h.2.2])
  | openBlock => exact marksOf_single hindent (by decide)
  | closeBlock => exact marksOf_single hindent (by decide)
  | code text => exact marksOf_single hindent h
  | comment text => exact marksOf_comment hindent h
  | placeholder subject text =>
    have htext : placeholderMark ++ subject ++ ": " ++ text =
        placeholderMark ++ (subject ++ ": " ++ text) := by
      simp only [String.append_assoc]
    show marksOf (CSharp.comment indent (placeholderMark ++ subject ++ ": " ++ text)) = 1
    rw [htext]
    exact marksOf_placeholder hindent (by simp +decide [h.1, h.2])

end Statement

/-! ## Bodies and methods -/

namespace Body

/-- How many placeholders a body has. -/
def marks (body : Body) : Nat :=
  body.countP (·.statement.isPlaceholder)

/-- That the mark stands in nothing that the statements of a body are made of. -/
def IsUnmarked (body : Body) : Prop :=
  ∀ placed ∈ body, placed.statement.IsUnmarked

theorem marksOf_lines {indent : String} (hindent : isSpaces indent = true) {body : Body}
    (h : body.IsUnmarked) : marksOf (body.lines indent) = body.marks := by
  induction body with
  | nil => rfl
  | cons placed body ih =>
    obtain ⟨hplaced, hbody⟩ := List.forall_mem_cons.1 h
    have hlines : Body.lines indent (placed :: body) =
        placed.statement.lines (deeperBy indent placed.depth) ++ Body.lines indent body := rfl
    rw [hlines, marksOf_append, Statement.marksOf_lines (isSpaces_deeperBy hindent _) hplaced, ih hbody,
      marks, marks, List.countP_cons, Nat.add_comm]

end Body

namespace Variable

/-- That the mark stands in nothing that a variable is made of. -/
structure IsUnmarked (v : Variable) : Prop where
  name : Unmarked v.name
  typeName : Unmarked v.typeName
  initialValue : Unmarked v.initialValue

theorem IsUnmarked.declaration {v : Variable} (h : v.IsUnmarked) : Unmarked v.declaration := by
  unfold Variable.declaration
  simp +decide [h.name, h.typeName, h.initialValue]

theorem IsUnmarked.parameter {v : Variable} (h : v.IsUnmarked) : Unmarked v.parameter := by
  unfold Variable.parameter
  simp +decide [h.name, h.typeName]

end Variable

namespace Method

/-- That the mark stands in nothing that a method is made of. -/
structure IsUnmarked (m : Method) : Prop where
  name : Unmarked m.name
  summary : ∀ paragraph ∈ m.summary, Unmarked paragraph
  parameters : ∀ v ∈ m.parameters, v.IsUnmarked
  body : m.body.IsUnmarked

theorem IsUnmarked.header {m : Method} (h : m.IsUnmarked) : Unmarked m.header := by
  have hparameters : Unmarked (", ".intercalate (m.parameters.map (·.parameter))) := by
    refine unmarked_intercalate (by decide) (by decide) (by decide) (by decide) fun text htext => ?_
    obtain ⟨v, hv, rfl⟩ := List.mem_map.1 htext
    exact (h.parameters v hv).parameter
  unfold Method.header
  simp +decide [h.name, hparameters]

/-- A method has a marked line for each placeholder in its body, and no other. -/
theorem marksOf_lines {indent : String} (hindent : isSpaces indent = true) {m : Method}
    (h : m.IsUnmarked) : marksOf (m.lines indent) = m.body.marks := by
  have hsummary :
      marksOf (m.summary.map fun paragraph => ⟨indent, "/// " ++ docText paragraph⟩) = 0 := by
    refine marksOf_of_unmarked fun line hline => ?_
    obtain ⟨paragraph, hparagraph, rfl⟩ := List.mem_map.1 hline
    have htext := unmarked_docText (h.summary paragraph hparagraph)
    exact ⟨hindent, by simp +decide [htext]⟩
  have hstart : marksOf [⟨indent, "/// <summary>"⟩] = 0 := marksOf_single hindent (by decide)
  have hheader : marksOf [⟨indent, "/// </summary>"⟩, ⟨indent, m.header⟩, ⟨indent, "\x7b"⟩] = 0 := by
    refine marksOf_of_unmarked ?_
    simp +decide [hindent, h.header]
  have hend : marksOf [⟨indent, "\x7d"⟩, Line.blank] = 0 := by
    refine marksOf_of_unmarked ?_
    simp +decide [hindent]
  have hbody := Body.marksOf_lines (isSpaces_deeperBy hindent 1) h.body
  rw [Method.lines, marksOf_append, marksOf_append, marksOf_append, marksOf_append, hstart, hsummary,
    hheader, hend, Nat.zero_add, Nat.add_zero]
  exact hbody

end Method

end SsisCompiler.CSharp
