import SsisCompiler.Compile.Variable
import SsisCompiler.Proofs.Expression.Composition
import SsisCompiler.Proofs.Text.Pieces

/-!
# References to variables

A variable is declared under the name that its node shows, and referred to in three ways: in an
expression as `@[Scope::Name]` or as `@Name`, and by a task as `Scope::Name`, with or without what
marks a reference in an expression. Each way takes the name out of the text by its own rules. They
agree because an identifier is made without the blanks around a name.

Results:
* `variableIdent_trim`: blanks around a name do not matter.
* `compile_bracketed`, `compile_bare`: the code of the two references in an expression.
* `referenceIdent_eq`: the identifier of a reference of a task.
* `references_agree`: all of them are the identifier that the variable is declared with.
-/

namespace SsisCompiler.Expression

/-- Whether a text may be the scope or the name in a reference: it holds none of the characters that
divide a reference. -/
def isReferencePart (s : String) : Bool :=
  s.toList.all fun c => c != ':' && c != '[' && c != ']'

theorem isReferencePart_iff (s : String) :
    isReferencePart s = true ↔ ':' ∉ s.toList ∧ '[' ∉ s.toList ∧ ']' ∉ s.toList := by
  simp only [isReferencePart, List.all_eq_true, Bool.and_eq_true, bne_iff_ne, ne_eq]
  constructor
  · intro h
    exact ⟨fun hc => (h _ hc).1.1 rfl, fun hc => (h _ hc).1.2 rfl, fun hc => (h _ hc).2 rfl⟩
  · rintro ⟨hcolon, hopen, hclose⟩ c hc
    refine ⟨⟨?_, ?_⟩, ?_⟩ <;> rintro rfl <;> contradiction

end SsisCompiler.Expression

namespace SsisCompiler.CSharp

theorem variableIdent_trim (s : String) : variableIdent (Text.trim s) = variableIdent s := by
  have hsanitize : sanitize (Text.trim s) = sanitize s := by
    rw [sanitize, sanitize, Text.trim, String.toList_ofList, Text.trimWhile_trimWhile]
  simp only [variableIdent, hsanitize]

end SsisCompiler.CSharp

namespace SsisCompiler.Expression

open Package (NodeId Tree)

/-! ## References in an expression -/

/-- Splitting a text at the first double colon, by its characters. -/
theorem splitOnce_ofList (cs : List Char) :
    Text.splitOnce "::" (String.ofList cs) =
      (Text.breakOn [':', ':'] cs).map (Prod.map String.ofList String.ofList) := by
  have hcolons : "::".toList = [':', ':'] := rfl
  rw [Text.splitOnce, hcolons, String.toList_ofList]
  rfl

theorem variableToken_scoped {scope : List Char} (h : ':' ∉ scope) (name : List Char) :
    variableToken (scope ++ ':' :: ':' :: name) =
      .variable (some (Text.trim (String.ofList scope))) (Text.trim (String.ofList name)) := by
  have hbreak : Text.splitOnce "::" (String.ofList (scope ++ ':' :: ':' :: name)) =
      some (String.ofList scope, String.ofList name) := by
    have hfound := Text.breakOn_append h [':'] name
    rw [List.append_assoc] at hfound
    rw [splitOnce_ofList]
    exact congrArg (Option.map _) hfound
  rw [variableToken, hbreak]

theorem variableToken_bare {name : List Char} (h : ':' ∉ name) :
    variableToken name = .variable none (Text.trim (String.ofList name)) := by
  have hbreak : Text.splitOnce "::" (String.ofList name) = none := by
    rw [splitOnce_ofList, Option.map_eq_none_iff, Option.eq_none_iff_forall_ne_some]
    rintro ⟨before, after⟩ hfound
    rw [Text.breakOn_eq_some hfound] at h
    exact h (by simp)
  rw [variableToken, hbreak]

/-- The tokens of a text that is one reference. -/
theorem scan_variable {cs : List Char} {token : Token}
    (h : readVariable cs = .ok (token, cs.length + 1)) : scanFrom 0 ('@' :: cs) = .ok [token] := by
  rw [scanFrom_of_readToken (by decide) (show readToken '@' cs = .ok (token, cs.length + 1) from h),
    Nat.add_sub_cancel, List.drop_length]
  rfl

theorem compile_variable (s : Surroundings) {expression : String} {scope : Option String}
    {name : String} (h : scan expression = .ok [.variable scope name])
    (hscope : isSystemScope scope = false) :
    compile s expression = .ok (CSharp.variableIdent name) :=
  (compile_eq_ok_iff s expression _).2 ⟨_, h, .single (.userVariable name hscope)⟩

theorem readVariable_bracketed {reference : List Char} (h : ']' ∉ reference) :
    readVariable ('[' :: (reference ++ [']'])) =
      .ok (variableToken reference, ('[' :: (reference ++ [']'])).length + 1) := by
  have hrun : (reference ++ [']']).takeWhile (· != ']') = reference := by
    rw [takeWhile_append_of_head (by simp), List.takeWhile_eq_self_iff]
    intro c hc
    rw [bne_iff_ne]
    rintro rfl
    exact h hc
  simp [readVariable, hrun]

theorem readVariable_bare {name : List Char} (hne : name ≠ []) (h : name.all isWordChar = true) :
    readVariable name = .ok (variableToken name, name.length + 1) := by
  have hrun : name.takeWhile isWordChar = name :=
    List.takeWhile_eq_self_iff.2 fun c hc => List.all_eq_true.1 h c hc
  cases name with
  | nil => exact absurd rfl hne
  | cons c cs =>
    have hc : c ≠ '[' := by
      rintro rfl
      simp [show isWordChar '[' = false by decide +kernel] at h
    rw [readVariable_of_ne hc, hrun]
    rfl

theorem compile_bracketed (s : Surroundings) {scope name : String}
    (hscope : isReferencePart scope = true) (hname : isReferencePart name = true)
    (hsystem : Text.equalIgnoringCase (Text.trim scope) "System" = false) :
    compile s ("@[" ++ scope ++ "::" ++ name ++ "]") = .ok (CSharp.variableIdent name) := by
  obtain ⟨hcolon, -, hclose⟩ := (isReferencePart_iff scope).1 hscope
  obtain ⟨-, -, hclose'⟩ := (isReferencePart_iff name).1 hname
  have htext : ("@[" ++ scope ++ "::" ++ name ++ "]").toList =
      '@' :: '[' :: ((scope.toList ++ ':' :: ':' :: name.toList) ++ [']']) := by
    simp
  have hreference : ']' ∉ scope.toList ++ ':' :: ':' :: name.toList := by
    simp [hclose, hclose']
  have hscan : scan ("@[" ++ scope ++ "::" ++ name ++ "]") =
      .ok [.variable (some (Text.trim scope)) (Text.trim name)] := by
    rw [scan, htext, scan_variable (readVariable_bracketed hreference), variableToken_scoped hcolon,
      String.ofList_toList, String.ofList_toList]
  rw [compile_variable s hscan hsystem, CSharp.variableIdent_trim]

theorem compile_bare (s : Surroundings) {name : String} (hne : name ≠ "")
    (hname : isReferencePart name = true) (h : name.toList.all isWordChar = true) :
    compile s ("@" ++ name) = .ok (CSharp.variableIdent name) := by
  obtain ⟨hcolon, -, -⟩ := (isReferencePart_iff name).1 hname
  have htext : ("@" ++ name).toList = '@' :: name.toList := by simp
  have hscan : scan ("@" ++ name) = .ok [.variable none (Text.trim name)] := by
    rw [scan, htext, scan_variable (readVariable_bare (by simpa using hne) h),
      variableToken_bare hcolon, String.ofList_toList]
  rw [compile_variable s hscan rfl, CSharp.variableIdent_trim]

end SsisCompiler.Expression

namespace SsisCompiler.Compile

open CSharp (variableIdent)
open Expression (isReferencePart isReferencePart_iff isWordChar)
open Package (NodeId Tree)

/-! ## References of a task -/

/-- A task's reference names what stands behind its last double colon, without brackets behind it. -/
theorem referenceIdent_eq {reference name : String} {before brackets : List Char}
    (h : reference.toList = before ++ [':', ':'] ++ (name.toList ++ brackets))
    (hbrackets : ∀ c ∈ brackets, c = ']') (hname : isReferencePart name = true)
    (hat : name.toList.head? ≠ some '@') : referenceIdent reference = variableIdent name := by
  obtain ⟨hcolon, hopen, hclose⟩ := (isReferencePart_iff name).1 hname
  have hlast : Text.afterLastPiece [':', ':'] reference.toList = name.toList ++ brackets := by
    rw [h]
    refine Text.afterLastPiece_append ?_ before [':']
    rw [List.mem_append, not_or]
    exact ⟨hcolon, fun hc => absurd (hbrackets _ hc) (by decide)⟩
  have hmark : (name.toList ++ brackets).dropWhile (· == '@') = name.toList ++ brackets := by
    cases hcs : name.toList ++ brackets with
    | nil => rfl
    | cons c cs =>
      have hc : c ≠ '@' := by
        rintro rfl
        cases hchars : name.toList with
        | nil =>
          rw [hchars, List.nil_append] at hcs
          exact absurd (hbrackets '@' (by simp [hcs])) (by decide)
        | cons d ds =>
          rw [hchars, List.cons_append, List.cons.injEq] at hcs
          exact hat (by rw [hchars, List.head?_cons, hcs.1])
      rw [List.dropWhile_cons, if_neg (by simpa using hc)]
  have hbare : Text.trimWhile (fun c => c == '[' || c == ']') (name.toList ++ brackets) =
      name.toList := by
    refine Text.trimWhile_append (fun c hc => ?_) fun c hc => by simp [hbrackets c hc]
    have hopen' : c ≠ '[' := fun heq => hopen (heq ▸ hc)
    have hclose' : c ≠ ']' := fun heq => hclose (heq ▸ hc)
    simp [hopen', hclose']
  rw [referenceIdent, hlast, hmark, hbare, String.ofList_toList]

/-- A variable has one identifier, wherever it is declared or referred to: as a variable node of its
name declares it, as expressions refer to it with a scope or, by a name that is a word, without one,
and as tasks refer to it. -/
theorem references_agree (t : Tree) (id site : NodeId) (scope name : String)
    (hid : (t.node id).name = some name) (hscope : isReferencePart scope = true)
    (hname : isReferencePart name = true) (hat : name.toList.head? ≠ some '@')
    (hsystem : Text.equalIgnoringCase (Text.trim scope) "System" = false) :
    Expression.compile (.ofNode t site) ("@[" ++ scope ++ "::" ++ name ++ "]") =
        .ok (declaredVariable t id).name ∧
      referenceIdent (scope ++ "::" ++ name) = (declaredVariable t id).name ∧
      referenceIdent ("@[" ++ scope ++ "::" ++ name ++ "]") = (declaredVariable t id).name ∧
      (name ≠ "" → name.toList.all isWordChar = true →
        Expression.compile (.ofNode t site) ("@" ++ name) = .ok (declaredVariable t id).name) := by
  have hdeclared : (declaredVariable t id).name = variableIdent name := by
    simp only [declaredVariable, variableName, hid, Option.getD_some]
  rw [hdeclared]
  refine ⟨Expression.compile_bracketed _ hscope hname hsystem, ?_, ?_, fun hne hword =>
    Expression.compile_bare _ hne hname hword⟩
  · have htext : (scope ++ "::" ++ name).toList = scope.toList ++ [':', ':'] ++ (name.toList ++ []) := by
      simp
    exact referenceIdent_eq htext (by simp) hname hat
  · have htext : ("@[" ++ scope ++ "::" ++ name ++ "]").toList =
        '@' :: '[' :: scope.toList ++ [':', ':'] ++ (name.toList ++ [']']) := by simp
    exact referenceIdent_eq htext (by simp) hname hat

/-- A package with a variable whose name is a keyword. -/
def keywordTree : Tree where
  root := { kind := Package.executableKind }
  entries := #[⟨0, { kind := Package.variableKind, name := some "class" }⟩]

/-- The scope has blanks around it, and the identifier is marked as a name. -/
theorem references_agree_keywordTree :
    (declaredVariable keywordTree 1).name = "@class" ∧
      Expression.compile (.ofNode keywordTree 0) "@[ User ::class]" = .ok "@class" ∧
      referenceIdent " User ::class" = "@class" ∧ referenceIdent "@[ User ::class]" = "@class" ∧
      Expression.compile (.ofNode keywordTree 0) "@class" = .ok "@class" := by
  have hname : (declaredVariable keywordTree 1).name = "@class" := by decide +kernel
  obtain ⟨hscoped, hreference, hbracketed, hbare⟩ := references_agree keywordTree 1 0 " User " "class"
    rfl (by decide +kernel) (by decide +kernel) (by decide +kernel) (by decide +kernel)
  rw [hname] at hscoped hreference hbracketed hbare
  exact ⟨hname, hscoped, hreference, hbracketed, hbare (by decide) (by decide +kernel)⟩

end SsisCompiler.Compile
