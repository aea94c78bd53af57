import SsisCompiler.CSharp.Line
import SsisCompiler.Proofs.Text.Pieces

/-!
# Lines of program text and comments

Program text has more ways to end a line than the text of a package: a line feed, a return, both
together, and three characters beyond ASCII. A comment is cut at line feeds alone, so another end of a
line inside its text begins a line of the program that the comment does not hold.

Results:
* `sourceLines_append_newline`: the lines of program text before and behind a line feed.
* `hasHarmlessEnds_append`: where a text that is a line of a comment may end a line.
* `hasHarmlessEnds_iff_lines`: the same for all lines of a comment.
* `isCommentOnly_comment_iff`: which texts a comment holds.
-/

namespace SsisCompiler.Text

theorem dropFinalReturn_nil : dropFinalReturn [] = [] := rfl

theorem dropFinalReturn_concat (cs : List Char) : dropFinalReturn (cs ++ ['\r']) = cs := by
  simp [dropFinalReturn]

theorem dropFinalReturn_of_getLast? {cs : List Char} (h : cs.getLast? ≠ some '\r') :
    dropFinalReturn cs = cs := by
  unfold dropFinalReturn
  split
  · rename_i hlast
    exact absurd hlast h
  · rfl

/-- A text is its text without a final return, or has the return behind it. -/
theorem dropFinalReturn_cases (cs : List Char) :
    (cs.getLast? ≠ some '\r' ∧ dropFinalReturn cs = cs) ∨ cs = dropFinalReturn cs ++ ['\r'] := by
  rcases List.eq_nil_or_concat cs with rfl | ⟨front, c, rfl⟩
  · exact Or.inl ⟨by simp, rfl⟩
  · rw [List.concat_eq_append]
    by_cases hc : c = '\r'
    · subst hc
      rw [dropFinalReturn_concat]
      exact Or.inr rfl
    · have hlast : (front ++ [c]).getLast? ≠ some '\r' := by simpa using hc
      exact Or.inl ⟨hlast, dropFinalReturn_of_getLast? hlast⟩

theorem dropFinalReturn_append {ds : List Char} (h : ds ≠ []) (cs : List Char) :
    dropFinalReturn (cs ++ ds) = cs ++ dropFinalReturn ds := by
  obtain ⟨front, c, rfl⟩ := (List.eq_nil_or_concat ds).resolve_left h
  rw [List.concat_eq_append, ← List.append_assoc]
  by_cases hc : c = '\r'
  · subst hc
    rw [dropFinalReturn_concat, dropFinalReturn_concat]
  · rw [dropFinalReturn_of_getLast? (by simpa using hc), dropFinalReturn_of_getLast? (by simpa using hc),
      List.append_assoc]

end SsisCompiler.Text

namespace SsisCompiler.CSharp

open Text (dropFinalReturn split)

/-! ## Lines of program text -/

/-- Whether a character ends a line. -/
def isLineTerminator (c : Char) : Bool :=
  ['\n', '\r', '\u0085', '\u2028', '\u2029'].contains c

/-- A text in which every line has one character at its end: a return before a line feed is left out. -/
def joinReturns : List Char → List Char
  | [] => []
  | c :: cs => if c == '\r' && cs.head? == some '\n' then joinReturns cs else c :: joinReturns cs

/-- The lines of program text, without what ends them. -/
def sourceLines (cs : List Char) : List (List Char) :=
  split isLineTerminator (joinReturns cs)

theorem joinReturns_of_not_mem {cs : List Char} (h : '\n' ∉ cs) : joinReturns cs = cs := by
  induction cs with
  | nil => rfl
  | cons c cs ih =>
    have hrest : '\n' ∉ cs := fun hmem => h (List.mem_cons_of_mem _ hmem)
    have hhead : (cs.head? == some '\n') = false := by
      rw [beq_eq_false_iff_ne]
      exact fun hhead => hrest (List.mem_of_head? hhead)
    rw [joinReturns, hhead, Bool.and_false, if_neg Bool.false_ne_true, ih hrest]

/-- A line feed takes the return before it along. -/
theorem joinReturns_append_newline (cs rest : List Char) :
    joinReturns (cs ++ '\n' :: rest) = joinReturns (dropFinalReturn cs) ++ '\n' :: joinReturns rest := by
  induction cs with
  | nil => rfl
  | cons c cs ih =>
    by_cases hnil : cs = []
    · subst hnil
      by_cases hc : c = '\r'
      · subst hc
        rfl
      · have hdrop : dropFinalReturn [c] = [c] := Text.dropFinalReturn_of_getLast? (by simpa using hc)
        rw [hdrop]
        simp [joinReturns, hc]
    · -- the character behind `c` is the same with and without the final return, or no line feed
      have hdrop : dropFinalReturn (c :: cs) = c :: dropFinalReturn cs :=
        Text.dropFinalReturn_append hnil [c]
      have hhead : ((cs ++ '\n' :: rest).head? == some '\n') =
          ((dropFinalReturn cs).head? == some '\n') := by
        obtain ⟨d, ds, rfl⟩ := List.exists_cons_of_ne_nil hnil
        rcases Text.dropFinalReturn_cases (d :: ds) with ⟨-, hsame⟩ | hreturn
        · rw [hsame]
          rfl
        · cases hfront : dropFinalReturn (d :: ds) with
          | nil =>
            rw [hfront] at hreturn
            obtain ⟨rfl, -⟩ := List.cons_eq_cons.1 hreturn
            rfl
          | cons e es =>
            rw [hfront] at hreturn
            obtain ⟨rfl, -⟩ := List.cons_eq_cons.1 hreturn
            rfl
      rw [List.cons_append, joinReturns, hhead, hdrop, joinReturns, ih]
      split
      · rfl
      · rfl

theorem sourceLines_of_not_mem {cs : List Char} (h : '\n' ∉ cs) :
    sourceLines cs = split isLineTerminator cs := by
  rw [sourceLines, joinReturns_of_not_mem h]

theorem sourceLines_append_newline (cs rest : List Char) :
    sourceLines (cs ++ '\n' :: rest) = sourceLines (dropFinalReturn cs) ++ sourceLines rest := by
  rw [sourceLines, joinReturns_append_newline, Text.split_append_cons (by decide), sourceLines,
    sourceLines]

/-- The first line before a line feed is all that stands there exactly if no other line ends there. -/
theorem head?_sourceLines_append_newline (cs rest : List Char) :
    (sourceLines (cs ++ '\n' :: rest)).head? = some cs ↔ ∀ c ∈ cs, isLineTerminator c = false := by
  constructor
  · intro h
    exact Text.not_of_mem_split (List.mem_of_head? h)
  · intro hcs
    have hreturn : cs.getLast? ≠ some '\r' := fun h =>
      absurd (hcs _ (List.mem_of_getLast? h)) (by decide)
    have hfeed : '\n' ∉ cs := fun h => absurd (hcs _ h) (by decide)
    rw [sourceLines_append_newline, Text.dropFinalReturn_of_getLast? hreturn,
      sourceLines_of_not_mem hfeed, Text.split_of_not hcs]
    rfl

/-! ## Ends of lines inside a comment -/

/-- Whether a return is read together with a line feed that stands behind it, or that is put behind the
end of the text. -/
def joinsLineFeed (after : List Char) : Bool :=
  after.isEmpty || ['\n'].isPrefixOf after || ['\r', '\n'].isPrefixOf after

/-- Whether the end of a line inside the text of a comment, with what stands behind it, begins no line
of the program that is not a comment: it is a line feed, it is a return that goes with a line feed, or
the next line has the mark of the comment's lines by itself. -/
def isHarmlessEnd (mark : List Char) (c : Char) (after : List Char) : Bool :=
  c == '\n' || (c == '\r' && joinsLineFeed after) || mark.isPrefixOf after

/-- Whether all ends of lines inside the text of a comment are harmless. -/
def hasHarmlessEnds (mark : List Char) : List Char → Bool
  | [] => true
  | c :: cs => (!isLineTerminator c || isHarmlessEnd mark c cs) && hasHarmlessEnds mark cs

/-- That every line of a text but the first begins with a mark. -/
def GoesOnMarked (mark cs : List Char) : Prop :=
  ∀ line ∈ (split isLineTerminator cs).tail, mark <+: line

theorem goesOnMarked_nil (mark : List Char) : GoesOnMarked mark [] := by
  simp [GoesOnMarked, split]

theorem goesOnMarked_cons_of_not {mark : List Char} {c : Char} (hc : isLineTerminator c = false)
    (cs : List Char) : GoesOnMarked mark (c :: cs) ↔ GoesOnMarked mark cs := by
  obtain ⟨piece, rest, h, hcons⟩ := Text.split_cons_of_neg hc cs
  rw [GoesOnMarked, GoesOnMarked, h, hcons, List.tail_cons, List.tail_cons]

/-- A return is not read with a line feed if what follows it in its line is not. -/
theorem joinsLineFeed_append {cs rest : List Char} (hcs : '\n' ∉ cs)
    (hlast : ('\r' :: cs).getLast? = some '\r' → joinsLineFeed rest = false) :
    joinsLineFeed (cs ++ rest) = false := by
  cases cs with
  | nil => exact hlast rfl
  | cons c cs =>
    obtain ⟨hc, hinner⟩ := not_or.1 (List.mem_cons.not.1 hcs)
    rw [← Bool.not_eq_true, joinsLineFeed, Bool.or_eq_true, Bool.or_eq_true]
    rintro ((hempty | hfeed) | hboth)
    · cases hempty
    · exact hc (List.cons_prefix_cons.1 (List.isPrefixOf_iff_prefix.1 hfeed)).1
    · obtain ⟨rfl, hfeed⟩ := List.cons_prefix_cons.1 (List.isPrefixOf_iff_prefix.1 hboth)
      cases cs with
      | nil =>
        have hjoins : joinsLineFeed rest = true := by
          rw [joinsLineFeed, List.isPrefixOf_iff_prefix.2 (show ['\n'] <+: rest from hfeed),
            Bool.or_true, Bool.true_or]
        rw [hlast rfl] at hjoins
        cases hjoins
      | cons d cs => exact hinner (List.mem_cons.2 (Or.inl (List.cons_prefix_cons.1 hfeed).1))

theorem hasHarmlessEnds_append_of_not {mark word : List Char}
    (hword : ∀ c ∈ word, isLineTerminator c = false) (cs : List Char) :
    hasHarmlessEnds mark (word ++ cs) = hasHarmlessEnds mark cs := by
  induction word with
  | nil => rfl
  | cons c word ih =>
    obtain ⟨hc, hword⟩ := List.forall_mem_cons.1 hword
    rw [List.cons_append, hasHarmlessEnds, hc, ih hword, Bool.not_false, Bool.true_or, Bool.true_and]

section Mark

variable {mark : List Char} (hmark : ∀ c ∈ mark, isLineTerminator c = false)

include hmark

/-- A mark stands at the beginning of a text exactly if it stands at the beginning of its first line. -/
theorem isPrefix_iff_of_split {cs first : List Char} {rest : List (List Char)}
    (h : split isLineTerminator cs = first :: rest) : mark <+: cs ↔ mark <+: first := by
  constructor
  · rintro ⟨behind, rfl⟩
    obtain ⟨piece, pieces, hpieces⟩ :=
      List.exists_cons_of_ne_nil (Text.split_ne_nil isLineTerminator behind)
    rw [Text.split_append_of_not hmark hpieces] at h
    obtain ⟨rfl, -⟩ := List.cons_eq_cons.1 h
    exact List.prefix_append _ _
  · exact fun hprefix => hprefix.trans (Text.split_eq_cons h).1

theorem isPrefix_append_iff {cs rest : List Char}
    (hrest : ∀ c ∈ rest.head?, isLineTerminator c = true) : mark <+: cs ++ rest ↔ mark <+: cs := by
  cases rest with
  | nil => rw [List.append_nil]
  | cons d rest =>
    obtain ⟨first, others, h⟩ := List.exists_cons_of_ne_nil (Text.split_ne_nil isLineTerminator cs)
    have happend := Text.split_append_cons (hrest d (by simp)) cs rest
    rw [h, List.cons_append] at happend
    rw [isPrefix_iff_of_split hmark happend, isPrefix_iff_of_split hmark h]

theorem goesOnMarked_cons_of_end {c : Char} (hc : isLineTerminator c = true) (cs : List Char) :
    GoesOnMarked mark (c :: cs) ↔ mark <+: cs ∧ GoesOnMarked mark cs := by
  obtain ⟨first, rest, h⟩ := List.exists_cons_of_ne_nil (Text.split_ne_nil isLineTerminator cs)
  have hcons : split isLineTerminator (c :: cs) = [] :: split isLineTerminator cs := by
    simp only [split, hc, if_true]
  rw [GoesOnMarked, GoesOnMarked, hcons, List.tail_cons, h, List.tail_cons, List.forall_mem_cons,
    isPrefix_iff_of_split hmark h]

/-- The ends of lines in a part of a comment's line. Behind it the line ends or a return stands, which
is not read with a return at the end of the part. -/
theorem hasHarmlessEnds_append {cs : List Char} (hcs : '\n' ∉ cs) (rest : List Char)
    (hrest : ∀ c ∈ rest.head?, isLineTerminator c = true)
    (hlast : cs.getLast? = some '\r' → joinsLineFeed rest = false) :
    hasHarmlessEnds mark (cs ++ rest) = true ↔
      GoesOnMarked mark cs ∧ hasHarmlessEnds mark rest = true := by
  induction cs with
  | nil => simp [goesOnMarked_nil]
  | cons c cs ih =>
    obtain ⟨hc, hinner⟩ := not_or.1 (List.mem_cons.not.1 hcs)
    have hlast' : cs.getLast? = some '\r' → joinsLineFeed rest = false := by
      intro h
      refine hlast ?_
      rw [List.getLast?_cons, h]
      rfl
    rw [List.cons_append, hasHarmlessEnds, Bool.and_eq_true, ih hinner hlast']
    cases hend : isLineTerminator c with
    | false => simp [goesOnMarked_cons_of_not hend]
    | true =>
      have hfeed : (c == '\n') = false := beq_eq_false_iff_ne.2 (Ne.symm hc)
      have hreturn : (c == '\r' && joinsLineFeed (cs ++ rest)) = false := by
        rw [Bool.and_eq_false_imp, beq_iff_eq]
        rintro rfl
        exact joinsLineFeed_append hinner hlast
      rw [Bool.not_true, Bool.false_or, isHarmlessEnd, hfeed, hreturn, Bool.false_or, Bool.false_or,
        List.isPrefixOf_iff_prefix, isPrefix_append_iff hmark hrest,
        goesOnMarked_cons_of_end hmark hend, and_assoc]

/-- The last line of a comment. A return at its end goes with the line feed that the comment puts
there. -/
theorem hasHarmlessEnds_line {cs : List Char} (hcs : '\n' ∉ cs) :
    hasHarmlessEnds mark cs = true ↔ GoesOnMarked mark (dropFinalReturn cs) := by
  rcases Text.dropFinalReturn_cases cs with ⟨hlast, hsame⟩ | hreturn
  · have h := hasHarmlessEnds_append hmark hcs [] (by simp) fun h => absurd h hlast
    rw [List.append_nil] at h
    rw [h, hsame]
    exact and_iff_left rfl
  · have hfront : '\n' ∉ dropFinalReturn cs := fun h =>
      hcs ((Text.dropFinalReturn_isPrefix cs).subset h)
    have h := hasHarmlessEnds_append hmark hfront ['\r'] (by simp [isLineTerminator]) fun _ => rfl
    rw [← hreturn] at h
    rw [h]
    exact and_iff_left rfl

/-- A line of a comment before a line feed. One return before it belongs to the line feed, and one more
goes with the line feed that the comment puts there. -/
theorem hasHarmlessEnds_line_append {cs : List Char} (hcs : '\n' ∉ cs) (rest : List Char) :
    hasHarmlessEnds mark (cs ++ '\n' :: rest) = true ↔
      GoesOnMarked mark (dropFinalReturn (dropFinalReturn cs)) ∧ hasHarmlessEnds mark rest = true := by
  have hfeed : hasHarmlessEnds mark ('\n' :: rest) = hasHarmlessEnds mark rest := rfl
  have hone : hasHarmlessEnds mark ('\r' :: '\n' :: rest) = hasHarmlessEnds mark rest := rfl
  have htwo : hasHarmlessEnds mark ('\r' :: '\r' :: '\n' :: rest) = hasHarmlessEnds mark rest := rfl
  have hfront : '\n' ∉ dropFinalReturn cs := fun h =>
    hcs ((Text.dropFinalReturn_isPrefix cs).subset h)
  rcases Text.dropFinalReturn_cases cs with ⟨hlast, hsame⟩ | hreturn
  · rw [hsame, hsame, hasHarmlessEnds_append hmark hcs _ (by simp [isLineTerminator])
      fun h => absurd h hlast, hfeed]
  · have hcs' : cs ++ '\n' :: rest = dropFinalReturn cs ++ '\r' :: '\n' :: rest := by
      conv_lhs => rw [hreturn]
      simp
    rcases Text.dropFinalReturn_cases (dropFinalReturn cs) with ⟨hlast, hsame⟩ | hreturn'
    · rw [hcs', hsame, hasHarmlessEnds_append hmark hfront _ (by simp [isLineTerminator])
        fun h => absurd h hlast, hone]
    · have hcs'' : cs ++ '\n' :: rest =
          dropFinalReturn (dropFinalReturn cs) ++ '\r' :: '\r' :: '\n' :: rest := by
        rw [hcs']
        conv_lhs => rw [hreturn']
        simp
      have hfront' : '\n' ∉ dropFinalReturn (dropFinalReturn cs) := fun h =>
        hfront ((Text.dropFinalReturn_isPrefix _).subset h)
      rw [hcs'', hasHarmlessEnds_append hmark hfront' _ (by simp [isLineTerminator]) fun _ => rfl, htwo]

/-- The ends of lines in a text are harmless exactly if none of the comment's lines holds one that
begins an unmarked line. -/
theorem hasHarmlessEnds_iff_lines (text : String) :
    hasHarmlessEnds mark text.toList = true ↔
      ∀ line ∈ Text.lines text, GoesOnMarked mark (dropFinalReturn line.toList) := by
  have hpieces (cs : List Char) : hasHarmlessEnds mark cs = true ↔
      ∀ line ∈ Text.linesOfPieces (split (· == '\n') cs),
        GoesOnMarked mark (dropFinalReturn line) := by
    -- from line feed to line feed
    induction hlength : cs.length using Nat.strongRecOn generalizing cs with
    | ind n ih =>
      by_cases hmem : '\n' ∈ cs
      · obtain ⟨line, rest, rfl, hline⟩ := List.eq_append_cons_of_mem hmem
        have hplain : ∀ c ∈ line, (c == '\n') = false := by
          intro c hc
          rw [beq_eq_false_iff_ne]
          rintro rfl
          exact hline hc
        obtain ⟨next, others, hrest⟩ :=
          List.exists_cons_of_ne_nil (Text.split_ne_nil (· == '\n') rest)
        have hshorter : rest.length < n := by
          rw [← hlength, List.length_append, List.length_cons]
          omega
        rw [hasHarmlessEnds_line_append hmark hline, ih _ hshorter rest rfl,
          Text.split_append_cons (by decide), Text.split_of_not hplain, hrest, List.singleton_append,
          Text.linesOfPieces, List.forall_mem_cons]
      · have hplain : ∀ c ∈ cs, (c == '\n') = false := by
          intro c hc
          rw [beq_eq_false_iff_ne]
          rintro rfl
          exact hmem hc
        rw [Text.split_of_not hplain, Text.linesOfPieces, hasHarmlessEnds_line hmark hmem]
        cases cs with
        | nil => simp [goesOnMarked_nil, Text.dropFinalReturn_nil]
        | cons c cs => simp
  rw [hpieces, Text.lines, List.forall_mem_map]
  simp only [String.toList_ofList]

end Mark

/-! ## Comments -/

/-- What every line of a comment begins with. -/
def commentMark (indent : String) : List Char :=
  indent.toList ++ ['/', '/']

/-- That all lines of a text are lines of a comment, apart from the empty end behind the last line. -/
def IsCommentOnly (indent text : String) : Prop :=
  (sourceLines text.toList).getLast? = some [] ∧
    ∀ line ∈ (sourceLines text.toList).dropLast, commentMark indent <+: line

instance (indent text : String) : Decidable (IsCommentOnly indent text) :=
  inferInstanceAs (Decidable (_ ∧ _))

theorem sourceLines_renderAll (lines : List Line) :
    sourceLines (Line.renderAll lines).toList =
      lines.flatMap (fun line => sourceLines (dropFinalReturn (line.indent ++ line.text).toList)) ++
        [[]] := by
  induction lines with
  | nil => rfl
  | cons line lines ih =>
    have hrender : (Line.renderAll (line :: lines)).toList =
        (line.indent ++ line.text).toList ++ '\n' :: (Line.renderAll lines).toList := by
      simp [Line.renderAll_cons]
    rw [hrender, sourceLines_append_newline, ih, List.flatMap_cons, List.append_assoc]

theorem isCommentOnly_renderAll (indent : String) (lines : List Line) :
    IsCommentOnly indent (Line.renderAll lines) ↔ ∀ line ∈ lines,
      ∀ part ∈ sourceLines (dropFinalReturn (line.indent ++ line.text).toList),
        commentMark indent <+: part := by
  rw [IsCommentOnly, sourceLines_renderAll, List.getLast?_concat, List.dropLast_concat,
    List.forall_mem_flatMap]
  exact and_iff_right rfl

/-- A line of a comment is the mark, a space unless it is empty, and its text. -/
theorem dropFinalReturn_commentText (indent line : String) :
    ∃ between, (∀ c ∈ between, isLineTerminator c = false) ∧
      dropFinalReturn (indent ++ commentText line).toList =
        commentMark indent ++ between ++ dropFinalReturn line.toList := by
  by_cases hempty : line = ""
  · subst hempty
    have htext : (indent ++ commentText "").toList = commentMark indent := String.toList_append
    refine ⟨[], by simp, ?_⟩
    rw [htext, Text.dropFinalReturn_of_getLast? (by simp [commentMark]), String.toList_empty,
      Text.dropFinalReturn_nil, List.append_nil, List.append_nil]
  · have htext : (indent ++ commentText line).toList = commentMark indent ++ [' '] ++ line.toList := by
      simp [commentText, commentMark, hempty]
    refine ⟨[' '], List.forall_mem_singleton.2 rfl, ?_⟩
    rw [htext, Text.dropFinalReturn_append (by simpa using hempty)]

section Comment

variable {indent : String} (hindent : ∀ c ∈ indent.toList, isLineTerminator c = false)

include hindent

theorem not_mem_commentMark : ∀ c ∈ commentMark indent, isLineTerminator c = false := by
  intro c hc
  rcases List.mem_append.1 hc with hc | hc
  · exact hindent c hc
  · obtain rfl : c = '/' := by simpa using hc
    rfl

/-- The lines of the program that one line of a comment makes: the first is marked, so it comes down to
the others. -/
theorem forall_mem_sourceLines_commentText (line : String) (hline : '\n' ∉ line.toList) :
    (∀ part ∈ sourceLines (dropFinalReturn (indent ++ commentText line).toList),
        commentMark indent <+: part) ↔
      GoesOnMarked (commentMark indent) (dropFinalReturn line.toList) := by
  obtain ⟨first, rest, h⟩ := List.exists_cons_of_ne_nil
    (Text.split_ne_nil isLineTerminator (dropFinalReturn line.toList))
  obtain ⟨between, hbetween, htext⟩ : ∃ between, (∀ c ∈ between, isLineTerminator c = false) ∧
      dropFinalReturn (indent ++ commentText line).toList =
        commentMark indent ++ between ++ dropFinalReturn line.toList :=
    dropFinalReturn_commentText indent line
  have hfront : ∀ c ∈ commentMark indent ++ between, isLineTerminator c = false := by
    intro c hc
    exact (List.mem_append.1 hc).elim (not_mem_commentMark hindent c) (hbetween c)
  have hfeed : '\n' ∉ commentMark indent ++ between ++ dropFinalReturn line.toList := by
    intro hmem
    rcases List.mem_append.1 hmem with hmem | hmem
    · exact absurd (hfront _ hmem) (by decide)
    · exact hline ((Text.dropFinalReturn_isPrefix _).subset hmem)
  rw [htext, sourceLines_of_not_mem hfeed, Text.split_append_of_not hfront h, GoesOnMarked, h,
    List.forall_mem_cons, List.tail_cons, List.append_assoc]
  exact and_iff_right (List.prefix_append _ _)

/-- A comment holds its text exactly if all ends of lines in the text are harmless. -/
theorem isCommentOnly_comment_iff (text : String) :
    IsCommentOnly indent (Line.renderAll (comment indent text)) ↔
      hasHarmlessEnds (commentMark indent) text.toList = true := by
  rw [hasHarmlessEnds_iff_lines (not_mem_commentMark hindent), isCommentOnly_renderAll]
  unfold comment
  split
  · rename_i hempty
    rw [String.isEmpty_iff] at hempty
    subst hempty
    have hnone : Text.lines "" = [] := rfl
    have hmark : GoesOnMarked (commentMark indent) (dropFinalReturn "".toList) := goesOnMarked_nil _
    have hslashes : commentText "" = "//" := rfl
    have hline := (forall_mem_sourceLines_commentText hindent "" (by simp)).2 hmark
    rw [hslashes] at hline
    rw [hnone, List.forall_mem_singleton]
    exact iff_of_true hline (by simp)
  · rw [List.forall_mem_map]
    refine forall₂_congr fun line hline => ?_
    exact forall_mem_sourceLines_commentText hindent line (Text.infix_of_mem_lines hline).2

theorem isCommentOnly_placeholder_iff (text : String) :
    IsCommentOnly indent (Line.renderAll (placeholder indent text)) ↔
      hasHarmlessEnds (commentMark indent) text.toList = true := by
  have hword : ∀ c ∈ (placeholderMark ++ ": ").toList, isLineTerminator c = false := by
    have hall : (placeholderMark ++ ": ").toList.all (!isLineTerminator ·) = true := by decide
    intro c hc
    simpa using List.all_eq_true.1 hall c hc
  rw [placeholder, isCommentOnly_comment_iff hindent, String.toList_append,
    hasHarmlessEnds_append_of_not hword]

end Comment

end SsisCompiler.CSharp
