import SsisCompiler.Proofs.Expression.Forms
import SsisCompiler.Proofs.Expression.Tokens
import SsisCompiler.Proofs.Names.Fresh

/-!
# Code stays in its place

The code of an expression is put between other code, so every literal in it has to be closed, and its
parentheses have to nest. A scan of the code knows whether it is inside a literal, of which kind, and how
many parentheses are open. What code does to the scan is stated with an arbitrary text behind it. A
verbatim literal goes on where a quote follows its closing quote, so that text may not begin with one.

Results:
* `Opens.text`, `OpensFirmly.code`: the scan of fixed text and of code, one behind the other.
* `compositional_opens`: casts, functions and operators leave no parenthesis open if their operands do
  not.
* `isNested_compile`: in compiled code every literal is closed and the parentheses nest.
-/

namespace SsisCompiler.Expression

open Package (NodeId Tree)

/-! ## Scanning code -/

/-- Where a scan of code is: outside of literals, or inside a regular or a verbatim one. -/
inductive Place
  | plain
  | regular
  | verbatim
  deriving DecidableEq, Repr

/-- Whether from a place on, with some parentheses open, every literal is closed and the parentheses
outside of literals nest: none is closed that is not open, and all are closed at the end. -/
def isNested : Place → Nat → List Char → Bool
  | .plain, depth, [] => depth == 0
  | .plain, depth, '@' :: '"' :: cs => isNested .verbatim depth cs
  | .plain, depth, '"' :: cs => isNested .regular depth cs
  | .plain, depth, '(' :: cs => isNested .plain (depth + 1) cs
  | .plain, depth, ')' :: cs =>
    match depth with
    | 0 => false
    | depth + 1 => isNested .plain depth cs
  | .plain, depth, _ :: cs => isNested .plain depth cs
  | .regular, _, [] => false
  | .regular, depth, '\\' :: _ :: cs => isNested .regular depth cs
  | .regular, depth, '"' :: cs => isNested .plain depth cs
  | .regular, depth, _ :: cs => isNested .regular depth cs
  | .verbatim, _, [] => false
  | .verbatim, depth, '"' :: '"' :: cs => isNested .verbatim depth cs
  | .verbatim, depth, '"' :: cs => isNested .plain depth cs
  | .verbatim, depth, _ :: cs => isNested .verbatim depth cs

example : isNested .plain 0 "f(@\"a\"\")\", \"\\\")\")".toList = true := by decide

example : isNested .plain 0 "f(@\"a\\\")\")".toList = false := by decide

/-- Whether a character is none that a scan outside of literals looks at. -/
def isPlainChar (c : Char) : Bool :=
  c != '@' && c != '"' && c != '(' && c != ')'

theorem isNested_plainChar {c : Char} (h : isPlainChar c = true) (depth : Nat) (cs : List Char) :
    isNested .plain depth (c :: cs) = isNested .plain depth cs := by
  simp only [isPlainChar, Bool.and_eq_true, bne_iff_ne, ne_eq] at h
  simp [isNested, h]

/-- A marked name is no literal. -/
theorem isNested_at {cs : List Char} (h : cs.head? ≠ some '"') (depth : Nat) :
    isNested .plain depth ('@' :: cs) = isNested .plain depth cs := by
  cases cs with
  | nil => simp [isNested]
  | cons c cs =>
    have hc : c ≠ '"' := by simpa using h
    simp [isNested, hc]

/-! ## Fixed text -/

/-- How many parentheses are open behind a text without literals, given how many are open before it. -/
def depthAfter : Nat → List Char → Option Nat
  | depth, [] => some depth
  | depth, c :: cs =>
    if c == '(' then depthAfter (depth + 1) cs
    else if c == ')' then
      match depth with
      | 0 => none
      | depth + 1 => depthAfter depth cs
    else if isPlainChar c then depthAfter depth cs
    else none

theorem isNested_of_depthAfter {before after : Nat} {cs : List Char}
    (h : depthAfter before cs = some after) (depth : Nat) (rest : List Char) :
    isNested .plain (depth + before) (cs ++ rest) = isNested .plain (depth + after) rest := by
  induction cs generalizing before with
  | nil =>
    obtain rfl := Option.some.inj h
    rfl
  | cons c cs ih =>
    simp only [depthAfter, beq_iff_eq] at h
    split_ifs at h with hopen hclose hplain
    · subst hopen
      exact ih h
    · subst hclose
      cases before with
      | zero => cases h
      | succ before => exact ih h
    · rw [List.cons_append, isNested_plainChar hplain]
      exact ih h

theorem depthAfter_of_plain {cs : List Char} (h : ∀ c ∈ cs, isPlainChar c = true) (depth : Nat) :
    depthAfter depth cs = some depth := by
  induction cs with
  | nil => rfl
  | cons c cs ih =>
    have hc := h c List.mem_cons_self
    have hne : c ≠ '(' ∧ c ≠ ')' := by
      constructor <;> (rintro rfl; exact absurd hc (by decide))
    simp only [depthAfter, beq_iff_eq, hne, hc, if_true, if_false]
    exact ih fun d hd => h d (List.mem_cons_of_mem c hd)

/-- The same of a text that is not empty; such a text ends what stands before it. -/
def textDepth (depth : Nat) (text : String) : Option Nat :=
  match text.toList with
  | [] => none
  | c :: cs => depthAfter depth (c :: cs)

theorem textDepth_eq_some {before after : Nat} {text : String}
    (h : textDepth before text = some after) :
    depthAfter before text.toList = some after ∧ ∀ rest, (text.toList ++ rest).head? ≠ some '"' := by
  unfold textDepth at h
  split at h
  · cases h
  · rename_i c cs heq
    rw [heq]
    refine ⟨h, fun rest hquote => ?_⟩
    obtain rfl : c = '"' := by simpa using hquote
    cases h

/-! ## Code -/

/-- Behind the code no literal is open, and so many more parentheses are open than before. -/
def Opens (count : Nat) (code : String) : Prop :=
  ∀ depth rest, rest.head? ≠ some '"' →
    isNested .plain depth (code.toList ++ rest) = isNested .plain (depth + count) rest

/-- The same of code behind which a quote may stand. -/
def OpensFirmly (count : Nat) (code : String) : Prop :=
  ∀ depth rest, isNested .plain depth (code.toList ++ rest) = isNested .plain (depth + count) rest

theorem OpensFirmly.opens {count : Nat} {code : String} (h : OpensFirmly count code) :
    Opens count code :=
  fun depth rest _ => h depth rest

theorem opensFirmly_text {count : Nat} {text : String} (h : textDepth 0 text = some count) :
    OpensFirmly count text :=
  isNested_of_depthAfter (textDepth_eq_some h).1

/-- Fixed text behind code. -/
theorem Opens.text {before after : Nat} {code text : String} (h : Opens before code)
    (htext : textDepth before text = some after) : OpensFirmly after (code ++ text) := by
  intro depth rest
  obtain ⟨hdepth, hhead⟩ := textDepth_eq_some htext
  rw [String.toList_append, List.append_assoc, h depth _ (hhead rest),
    isNested_of_depthAfter hdepth]

theorem OpensFirmly.text {before after : Nat} {code text : String} (h : OpensFirmly before code)
    (htext : textDepth before text = some after) : OpensFirmly after (code ++ text) :=
  h.opens.text htext

/-- Code behind fixed text. -/
theorem OpensFirmly.code {count : Nat} {text code : String} (h : OpensFirmly count text)
    (hcode : Opens 0 code) : Opens count (text ++ code) := by
  intro depth rest hrest
  rw [String.toList_append, List.append_assoc, h, hcode _ rest hrest]
  rfl

theorem opensFirmly_paren {code : String} (h : Opens 0 code) : OpensFirmly 0 (paren code) :=
  ((opensFirmly_text rfl).code h).text rfl

/-! ## Casts, functions and operators -/

/-- How many parentheses are open behind a form whose holes leave none open, given how many are open
before it. Text stands behind each hole. -/
def Form.openAfter {α : Type} : Nat → Form α → Option Nat
  | depth, [] => some depth
  | depth, .text s :: t => (textDepth depth s).bind fun after => openAfter after t
  | depth, .hole _ :: .text s :: t => (textDepth depth s).bind fun after => openAfter after t
  | _, .hole _ :: _ => none

theorem isNested_fill {α : Type} {t : Form α} {before after : Nat}
    (h : t.openAfter before = some after) {f : α → String} (hf : ∀ a, Opens 0 (f a)) (depth : Nat)
    (rest : List Char) :
    isNested .plain (depth + before) ((t.fill f).toList ++ rest) =
      isNested .plain (depth + after) rest := by
  fun_induction Form.openAfter before t with
  | case1 before =>
    obtain rfl := Option.some.inj h
    rfl
  | case2 before s t ih =>
    obtain ⟨between, hbetween, ht⟩ := Option.bind_eq_some_iff.1 h
    rw [Form.fill, String.toList_append, List.append_assoc,
      isNested_of_depthAfter (textDepth_eq_some hbetween).1, ih between ht]
  | case3 before a s t ih =>
    obtain ⟨between, hbetween, ht⟩ := Option.bind_eq_some_iff.1 h
    obtain ⟨hdepth, hhead⟩ := textDepth_eq_some hbetween
    rw [Form.fill, Form.fill, String.toList_append, String.toList_append, List.append_assoc,
      List.append_assoc, hf a _ _ (hhead _), Nat.add_zero, isNested_of_depthAfter hdepth,
      ih between ht]
  | case4 => cases h

theorem opens_castCode {type code out : String} (h : castCode type code = .ok out)
    (hcode : Opens 0 code) : Opens 0 out := by
  obtain ⟨t, ht, rfl⟩ := (castCode_eq_ok_iff _ _ _).1 h
  have hopen := castForm?_all (P := fun t => t.openAfter 0 == some 0) (by decide) ht
  exact fun depth rest _ => isNested_fill (beq_iff_eq.1 hopen) (fun _ => hcode) depth rest

theorem opens_functionCode {name code : String} {args : List String}
    (h : functionCode name args = .ok code) (hargs : ∀ arg ∈ args, Opens 0 arg) : Opens 0 code := by
  obtain ⟨t, ht, -, rfl⟩ := (functionCode_eq_ok_iff _ _ _).1 h
  have hopen := callForm?_all (P := fun t => t.code.openAfter 0 == some 0) (by decide)
    (by decide) ht
  have hempty : Opens 0 "" := fun depth rest _ => rfl
  exact fun depth rest _ =>
    isNested_fill (beq_iff_eq.1 hopen) (forall_getD hempty hargs) depth rest

theorem compositional_opens : Compositional (Opens 0) where
  ofFixed := by
    have hfixed : ∀ code ∈ fixedCodes, textDepth 0 code = some 0 := by decide
    exact fun code hcode => (opensFirmly_text (hfixed code hcode)).opens
  ofUnary := by
    intro op code hop h
    have hsymbol : textDepth 0 op.symbol = some 0 := by cases op <;> rfl
    exact (opensFirmly_text hsymbol).code h
  ofGroup h := (opensFirmly_paren h).opens
  ofCast := opens_castCode
  ofCall := opens_functionCode
  ofJoin := by
    intro op code next h hnext
    have hsymbol : textDepth 0 op.symbol = some 0 := by cases op <;> rfl
    exact (((h.text rfl).text hsymbol).text rfl).code hnext

/-! ## Literals and names -/

theorem opens_of_plain {code : String} (h : ∀ c ∈ code.toList, isPlainChar c = true) :
    Opens 0 code :=
  fun depth rest _ => isNested_of_depthAfter (depthAfter_of_plain h 0) depth rest

theorem isNested_regular {cs : List Char} {n : Nat} (h : stringLength? cs = some n) (depth : Nat)
    (rest : List Char) :
    isNested .regular depth (cs.take n ++ rest) = isNested .plain depth rest := by
  fun_induction stringLength? cs generalizing n with
  | case1 => cases h
  | case2 => cases h
  | case3 c cs ih =>
    obtain ⟨m, hm, rfl⟩ := Option.map_eq_some_iff.1 h
    simpa [isNested] using ih hm
  | case4 c cs hlast hescape hquote =>
    obtain rfl := Option.some.inj h
    obtain rfl := beq_iff_eq.1 hquote
    simp [isNested]
  | case5 c cs hlast hescape hquote ih =>
    obtain ⟨m, hm, rfl⟩ := Option.map_eq_some_iff.1 h
    have hne := ne_backslash hlast hescape
    have hquote : c ≠ '"' := by simpa using hquote
    simpa [isNested, hne, hquote] using ih hm

theorem opens_string {literal : String} {cs : List Char} {n : Nat} (h : stringLength? cs = some n)
    (hliteral : literal.toList = '"' :: cs.take n) : Opens 0 literal := by
  intro depth rest _
  rw [hliteral]
  exact isNested_regular h depth rest

theorem isPlainChar_of_isAlphanum {c : Char} (h : c.isAlphanum = true) : isPlainChar c = true := by
  have hne : ∀ d : Char, d.isAlphanum = false → c ≠ d := by
    rintro d hd rfl
    rw [h] at hd
    cases hd
  simp [isPlainChar, hne '@' (by decide), hne '"' (by decide), hne '(' (by decide),
    hne ')' (by decide)]

theorem isPlainChar_numeralRest (before : Char) (cs : List Char) :
    ∀ c ∈ numeralRest before cs, isPlainChar c = true := by
  induction cs generalizing before with
  | nil => simp [numeralRest]
  | cons d cs ih =>
    unfold numeralRest
    split
    · rename_i hd
      refine List.forall_mem_cons.2 ⟨?_, ih d⟩
      simp only [isSign, Bool.or_eq_true, Bool.and_eq_true, beq_iff_eq] at hd
      rcases hd with (hd | rfl) | ⟨rfl | rfl, -⟩
      · exact isPlainChar_of_isAlphanum hd
      · decide
      · decide
      · decide
    · simp

theorem opens_number {literal : String} {c : Char} {cs : List Char}
    (hc : c.isDigit = true ∨ c = '.') (hliteral : literal.toList = c :: numeralRest c cs) :
    Opens 0 literal := by
  refine opens_of_plain ?_
  rw [hliteral]
  refine List.forall_mem_cons.2 ⟨?_, isPlainChar_numeralRest c cs⟩
  rcases hc with hc | rfl
  · exact isPlainChar_of_isAlphanum (by simp [Char.isAlphanum, hc])
  · decide

theorem isPlainChar_of_isIdentChar {c : Char} (h : CSharp.isIdentChar c = true) :
    isPlainChar c = true := by
  simp only [CSharp.isIdentChar, Bool.or_eq_true, beq_iff_eq] at h
  rcases h with h | rfl
  · exact isPlainChar_of_isAlphanum h
  · decide

theorem opens_variableIdent (name : String) : Opens 0 (CSharp.variableIdent name) := by
  obtain ⟨c, cs, htext, hc, -⟩ :=
    (CSharp.isIdentifier_eq_true_iff _).1 (CSharp.isIdentifier_sanitize name)
  have hstart := CSharp.isIdentChar_of_isIdentStart hc
  have hplain : ∀ d ∈ (CSharp.sanitize name).toList, isPlainChar d = true := fun d hd =>
    isPlainChar_of_isIdentChar
      (CSharp.isIdentChar_of_isIdentifier (CSharp.isIdentifier_sanitize name) d hd)
  unfold CSharp.variableIdent
  dsimp only
  split
  · intro depth rest hrest
    have hhead : ((CSharp.sanitize name).toList ++ rest).head? ≠ some '"' := by
      rw [htext]
      intro hquote
      obtain rfl : c = '"' := by simpa using hquote
      exact absurd hstart (by decide)
    have hmarked : ("@" ++ CSharp.sanitize name).toList ++ rest =
        '@' :: ((CSharp.sanitize name).toList ++ rest) := by simp
    rw [hmarked, isNested_at hhead, opens_of_plain hplain depth rest hrest]
  · split
    · exact ((opens_of_plain hplain).text rfl).opens
    · exact opens_of_plain hplain

theorem isNested_verbatim (cs : List Char) {rest : List Char} (hrest : rest.head? ≠ some '"')
    (depth : Nat) :
    isNested .verbatim depth (CSharp.doubleQuotes cs ++ '"' :: rest) = isNested .plain depth rest := by
  induction cs with
  | nil =>
    cases rest with
    | nil => rfl
    | cons c rest =>
      have hc : c ≠ '"' := by simpa using hrest
      simp [CSharp.doubleQuotes, isNested, hc]
  | cons c cs ih =>
    by_cases hc : c = '"'
    · subst hc
      simpa [CSharp.doubleQuotes, isNested] using ih
    · simpa [CSharp.doubleQuotes, isNested, hc] using ih

theorem opens_verbatim (text : String) : Opens 0 (CSharp.verbatim text) := by
  intro depth rest hrest
  have htext : (CSharp.verbatim text).toList ++ rest =
      '@' :: '"' :: (CSharp.doubleQuotes text.toList ++ '"' :: rest) := by
    simp [CSharp.verbatim]
  rw [htext]
  exact isNested_verbatim text.toList hrest depth

theorem opens_leaf {s : Surroundings} {expression : String} {ts : List Token}
    (hscan : scan expression = .ok ts) {code : String} (h : Leaf s ts code) : Opens 0 code := by
  cases h with
  | string hmem =>
    obtain ⟨cs, n, -, hn, hliteral⟩ := string_of_scan hscan hmem
    exact opens_string hn hliteral
  | number hmem =>
    obtain ⟨c, cs, -, hc, hliteral⟩ := number_of_scan hscan hmem
    exact opens_number hc hliteral
  | userVariable _ => exact opens_variableIdent _
  | packageName => exact opens_verbatim _
  | packageId _ => exact opens_verbatim _
  | taskName => exact opens_verbatim _

/-! ## Compiled code -/

/-- In compiled code every literal is closed, and outside of literals the parentheses nest. -/
theorem isNested_compile (t : Tree) (id : NodeId) (expression code : String)
    (h : compile (.ofNode t id) expression = .ok code) : isNested .plain 0 code.toList = true := by
  obtain ⟨ts, hscan, hd⟩ := (compile_eq_ok_iff _ expression code).1 h
  have hopens := hd.induction_on_code compositional_opens fun c hc => opens_leaf hscan hc
  have hwhole := hopens 0 [] (by simp)
  rw [List.append_nil] at hwhole
  rw [hwhole]
  rfl

/-- A package whose name has a quote and a parenthesis. -/
def quotedTree : Tree where
  root := { kind := "DTS:Executable", name := some "a\")" }

theorem isNested_compile_quotedTree :
    compile (.ofNode quotedTree 0) "REPLACE(@[System::PackageName], \"\\\")\", @[User::class])" =
        .ok "(@\"a\"\")\").Replace(\"\\\")\", @class)" ∧
      isNested .plain 0 "(@\"a\"\")\").Replace(\"\\\")\", @class)".toList = true := by
  have h : compile (.ofNode quotedTree 0)
      "REPLACE(@[System::PackageName], \"\\\")\", @[User::class])" =
        .ok "(@\"a\"\")\").Replace(\"\\\")\", @class)" :=
    eq_ok_of_toOption (by decide +kernel)
  exact ⟨h, isNested_compile quotedTree 0 _ _ h⟩

end SsisCompiler.Expression
