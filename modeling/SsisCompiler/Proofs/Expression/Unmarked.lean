import SsisCompiler.Proofs.CSharp.Unmarked
import SsisCompiler.Proofs.Expression.Forms
import SsisCompiler.Proofs.Expression.Tokens

/-!
# Code without the mark

An expression without the mark, in surroundings without it, has code without it: variables and literals
are pieces of the expression, or other spellings of pieces, and all that is put between them ends and
begins with characters that are no letters of the mark.

Results:
* `compositional_unmarked`: casts, functions and operators do not bring the mark about.
* `unmarked_compile`, `unmarked_compileStatement`: the code of an expression without the mark.
-/

namespace SsisCompiler.Expression

open CSharp (Unmarked)

/-! ## Casts, functions and operators -/

@[simp]
theorem unmarked_paren (code : String) : Unmarked (paren code) ↔ Unmarked code := by
  unfold paren
  simp +decide

/-- Whether a form begins with text, and with no letter of the mark. -/
def Form.startsOutside {α : Type} : Form α → Bool
  | [] => true
  | .text s :: _ => s != "" && CSharp.startsOutside s
  | .hole _ :: _ => false

/-- Whether the texts of a form are unmarked and no piece of it meets the next between two letters of the
mark. -/
def Form.meetsOutside {α : Type} : Form α → Bool
  | [] => true
  | .text s :: t =>
    decide (Unmarked s) && (CSharp.endsOutside s || startsOutside t) && meetsOutside t
  | .hole _ :: t => startsOutside t && meetsOutside t

theorem startsOutside_fill {α : Type} {t : Form α} (h : t.startsOutside = true) (f : α → String) :
    CSharp.startsOutside (t.fill f) = true := by
  cases t with
  | nil => rfl
  | cons p t =>
    cases p with
    | hole a => cases h
    | text s =>
      obtain ⟨hne, hs⟩ := Bool.and_eq_true_iff.1 h
      have hne : s.toList ≠ [] := by simpa using hne
      rw [Form.fill, CSharp.startsOutside, String.toList_append, List.head?_append_of_ne_nil _ hne]
      exact hs

theorem unmarked_fill {α : Type} {t : Form α} (h : t.meetsOutside = true) {f : α → String}
    (hf : ∀ a, Unmarked (f a)) : Unmarked (t.fill f) := by
  fun_induction Form.meetsOutside t with
  | case1 => exact (by decide : Unmarked "")
  | case2 s t ih =>
    simp only [Bool.and_eq_true, Bool.or_eq_true, decide_eq_true_eq] at h
    obtain ⟨⟨hs, hmeet⟩, ht⟩ := h
    exact (CSharp.unmarked_append (hmeet.imp_right (startsOutside_fill · f))).2 ⟨hs, ih ht⟩
  | case3 a t ih =>
    obtain ⟨hstarts, ht⟩ := Bool.and_eq_true_iff.1 h
    exact (CSharp.unmarked_append_of_starts (startsOutside_fill hstarts f)).2 ⟨hf a, ih ht⟩

theorem unmarked_castCode {type code out : String} (h : castCode type code = .ok out)
    (hcode : Unmarked code) : Unmarked out := by
  obtain ⟨t, ht, rfl⟩ := (castCode_eq_ok_iff _ _ _).1 h
  exact unmarked_fill (castForm?_all (by decide) ht) fun _ => hcode

theorem unmarked_functionCode {name code : String} {args : List String}
    (h : functionCode name args = .ok code) (hargs : ∀ arg ∈ args, Unmarked arg) :
    Unmarked code := by
  obtain ⟨t, ht, -, rfl⟩ := (functionCode_eq_ok_iff _ _ _).1 h
  have hmeets := callForm?_all (P := fun t => t.code.meetsOutside) (by decide)
    (by decide) ht
  exact unmarked_fill hmeets (forall_getD (by decide) hargs)

theorem compositional_unmarked : Compositional Unmarked where
  ofFixed := by decide
  ofUnary := by
    intro op code hop h
    cases op <;> simp +decide [Operator.symbol, h]
  ofGroup h := (unmarked_paren _).2 h
  ofCast := unmarked_castCode
  ofCall := unmarked_functionCode
  ofJoin := by
    intro op code next h hnext
    cases op <;> simp +decide [Operator.symbol, h, hnext]

/-! ## Variables and literals -/

theorem name_infix_of_variableToken {reference : List Char} {scope : Option String} {name : String}
    (h : variableToken reference = .variable scope name) : name.toList <:+: reference := by
  unfold variableToken at h
  split at h
  · rename_i before after hsplit
    cases h
    have hafter := (Text.infix_of_splitOnce hsplit).2
    rw [String.toList_ofList] at hafter
    exact (Text.trim_isInfix after).trans hafter
  · cases h
    simpa using Text.trim_isInfix (String.ofList reference)

theorem variable_of_scan {text name : String} {scope : Option String} {ts : List Token}
    (h : scan text = .ok ts) (hmem : .variable scope name ∈ ts) : name.toList <:+: text.toList := by
  generalize htoken : Token.variable scope name = token at hmem
  cases standsIn_of_scan h hmem with
  | «variable» hreference => exact (name_infix_of_variableToken htoken.symm).trans hreference
  | _ => cases htoken

/-- Surroundings without the mark. -/
structure Surroundings.IsUnmarked (s : Surroundings) : Prop where
  packageName : Unmarked s.packageName
  packageId : ∀ id ∈ s.packageId, Unmarked id
  taskName : Unmarked s.taskName

theorem unmarked_leaf {s : Surroundings} (hs : s.IsUnmarked) {expression : String} {ts : List Token}
    (hscan : scan expression = .ok ts) (hexpression : Unmarked expression) {code : String}
    (h : Leaf s ts code) : Unmarked code := by
  cases h with
  | string hmem =>
    obtain ⟨cs, n, hsuffix, -, hliteral⟩ := string_of_scan hscan hmem
    refine hexpression.of_isInfix ?_
    rw [hliteral]
    exact (List.cons_prefix_cons.2 ⟨rfl, List.take_prefix n cs⟩).isInfix.trans hsuffix.isInfix
  | number hmem =>
    obtain ⟨c, cs, hsuffix, -, hliteral⟩ := number_of_scan hscan hmem
    refine hexpression.of_isInfix ?_
    rw [hliteral]
    exact (List.cons_prefix_cons.2 ⟨rfl, numeralRest_isPrefix c cs⟩).isInfix.trans hsuffix.isInfix
  | userVariable hmem =>
    exact CSharp.unmarked_variableIdent (hexpression.of_isInfix (variable_of_scan hscan hmem))
  | packageName => exact CSharp.unmarked_verbatim hs.packageName
  | packageId hid => exact CSharp.unmarked_verbatim (hs.packageId _ hid)
  | taskName => exact CSharp.unmarked_verbatim hs.taskName

/-! ## Expressions -/

theorem unmarked_compile {s : Surroundings} (hs : s.IsUnmarked) {expression code : String}
    (hexpression : Unmarked expression) (h : compile s expression = .ok code) : Unmarked code := by
  obtain ⟨ts, hscan, hd⟩ := (compile_eq_ok_iff s expression code).1 h
  exact hd.induction_on_code compositional_unmarked fun c hc =>
    unmarked_leaf hs hscan hexpression hc

theorem unmarked_compileStatement {s : Surroundings} (hs : s.IsUnmarked) {expression code : String}
    (hexpression : Unmarked expression) (h : compileStatement s expression = .ok code) :
    Unmarked code := by
  unfold compileStatement at h
  split at h
  · cases h
  · rename_i out hout
    have hunmarked := unmarked_compile hs hexpression hout
    obtain rfl := Except.ok.inj h
    split
    · exact hunmarked
    · simp +decide [hunmarked]

/-- A refusal shows the expression that was refused. -/
theorem expression_of_refusal {s : Surroundings} {expression : String} {refusal : Refusal}
    (h : compile s expression = .error refusal) : refusal.expression = expression := by
  unfold compile at h
  split at h
  · cases h
    rfl
  · split at h
    · cases h
      rfl
    · cases h

end SsisCompiler.Expression
