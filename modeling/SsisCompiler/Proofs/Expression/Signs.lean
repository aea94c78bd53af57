import SsisCompiler.Proofs.Expression.DateParts
import SsisCompiler.Proofs.Expression.Nesting

/-!
# Signs side by side

Two minus signs side by side are no longer two signs in the code: they make up a decrement. Code has
spaces around an operator between two operands, and none behind one of a single operand, so that two
signs meet exactly where a sign stands before a sign. Numerals, casts and functions bring signs of their
own, which meet no other.

What code does to the search for two signs is stated with an arbitrary text behind it, and what a row of
tokens does with an arbitrary row behind it; both go through the rules together.

Results:
* `doublesMinus_steady`, `doublesMinus_fill`: signs in fixed text and in filled forms.
* `any_holes`: the argument that names a part of a date is left out of the code, and has no sign.
* `Derives.signsAgree`: signs stand side by side in code as they do among its tokens.
* `doublesMinus_compile`: the same of compiled code.
-/

namespace SsisCompiler.Expression

open Package (NodeId Tree)

/-! ## Signs in code -/

/-- Whether from a place on two minus signs stand side by side outside of literals. -/
def doublesMinus : Place → List Char → Bool
  | .plain, [] => false
  | .plain, '@' :: '"' :: cs => doublesMinus .verbatim cs
  | .plain, '"' :: cs => doublesMinus .regular cs
  | .plain, '-' :: '-' :: _ => true
  | .plain, _ :: cs => doublesMinus .plain cs
  | .regular, [] => false
  | .regular, '\\' :: _ :: cs => doublesMinus .regular cs
  | .regular, '"' :: cs => doublesMinus .plain cs
  | .regular, _ :: cs => doublesMinus .regular cs
  | .verbatim, [] => false
  | .verbatim, '"' :: '"' :: cs => doublesMinus .verbatim cs
  | .verbatim, '"' :: cs => doublesMinus .plain cs
  | .verbatim, _ :: cs => doublesMinus .verbatim cs

example : doublesMinus .plain "f(\"--\", @\"--\", - -x)".toList = false := by decide

example : doublesMinus .plain "f(\"\", --x)".toList = true := by decide

theorem doublesMinus_plainChar {c : Char} (hat : c ≠ '@') (hquote : c ≠ '"') (hminus : c ≠ '-')
    (cs : List Char) : doublesMinus .plain (c :: cs) = doublesMinus .plain cs := by
  simp [doublesMinus, hat, hminus]

theorem doublesMinus_at {cs : List Char} (h : cs.head? ≠ some '"') :
    doublesMinus .plain ('@' :: cs) = doublesMinus .plain cs := by
  cases cs with
  | nil => simp [doublesMinus]
  | cons c cs =>
    have hc : c ≠ '"' := by simpa using h
    simp [doublesMinus, hc]

theorem doublesMinus_minus {cs : List Char} (h : cs.head? ≠ some '-') :
    doublesMinus .plain ('-' :: cs) = doublesMinus .plain cs := by
  cases cs with
  | nil => simp [doublesMinus]
  | cons c cs =>
    have hc : c ≠ '-' := by simpa using h
    simp [doublesMinus, hc]

theorem mem_of_doublesMinus {place : Place} {cs : List Char} (h : doublesMinus place cs = true) :
    '-' ∈ cs := by
  fun_induction doublesMinus place cs <;> simp_all

/-- Whether no literal begins in a text, no two minus signs of it meet, and none ends it. -/
def isSteady : List Char → Bool
  | [] => true
  | c :: cs => c != '@' && c != '"' && (c != '-' || cs.head?.any (· != '-')) && isSteady cs

/-- A steady text has no two signs, whatever stands behind it. -/
theorem doublesMinus_steady {cs : List Char} (h : isSteady cs = true) (rest : List Char) :
    doublesMinus .plain (cs ++ rest) = doublesMinus .plain rest := by
  induction cs with
  | nil => rfl
  | cons c cs ih =>
    simp only [isSteady, Bool.and_eq_true, bne_iff_ne, Bool.or_eq_true] at h
    obtain ⟨⟨⟨hat, hquote⟩, hminus⟩, hcs⟩ := h
    by_cases hc : c = '-'
    · subst hc
      cases cs with
      | nil => simp at hminus
      | cons d cs =>
        have hd : d ≠ '-' := by simpa using hminus
        rw [List.cons_append, doublesMinus_minus (by simpa using hd)]
        exact ih hcs
    · rw [List.cons_append, doublesMinus_plainChar hat hquote hc]
      exact ih hcs

theorem exists_cons_of_any {cs : List Char} (h : cs.head?.any (· != '-') = true) :
    ∃ c rest, cs = c :: rest ∧ c ≠ '-' := by
  cases cs with
  | nil => cases h
  | cons c rest => exact ⟨c, rest, rfl, by simpa using h⟩

/-! ## Operands without parts -/

/-- Code that does not begin with a sign, and behind which signs are counted as if it were not there. -/
structure Signless (code : String) : Prop where
  head : ∃ c ∈ code.toList.head?, c ≠ '-'
  scan : ∀ rest, rest.head? ≠ some '"' →
    doublesMinus .plain (code.toList ++ rest) = doublesMinus .plain rest

theorem signless_of_isSteady {code : String} (hhead : ∃ c ∈ code.toList.head?, c ≠ '-')
    (h : isSteady code.toList = true) : Signless code :=
  ⟨hhead, fun rest _ => doublesMinus_steady h rest⟩

theorem isSteady_of_forall {cs : List Char} (h : ∀ c ∈ cs, isPlainChar c = true ∧ c ≠ '-') :
    isSteady cs = true := by
  induction cs with
  | nil => rfl
  | cons c cs ih =>
    obtain ⟨⟨hplain, hminus⟩, hcs⟩ := List.forall_mem_cons.1 h
    simp only [isPlainChar, Bool.and_eq_true, bne_iff_ne] at hplain
    simp [isSteady, hplain, hminus, ih hcs]

theorem doublesMinus_regular {cs : List Char} {n : Nat} (h : stringLength? cs = some n)
    (rest : List Char) : doublesMinus .regular (cs.take n ++ rest) = doublesMinus .plain rest := by
  fun_induction stringLength? cs generalizing n with
  | case1 => cases h
  | case2 => cases h
  | case3 c cs ih =>
    obtain ⟨m, hm, rfl⟩ := Option.map_eq_some_iff.1 h
    simpa [doublesMinus] using ih hm
  | case4 c cs hlast hescape hquote =>
    obtain rfl := Option.some.inj h
    obtain rfl := beq_iff_eq.1 hquote
    simp [doublesMinus]
  | case5 c cs hlast hescape hquote ih =>
    obtain ⟨m, hm, rfl⟩ := Option.map_eq_some_iff.1 h
    have hne := ne_backslash hlast hescape
    have hquote : c ≠ '"' := by simpa using hquote
    simpa [doublesMinus, hne, hquote] using ih hm

theorem signless_string {literal : String} {cs : List Char} {n : Nat}
    (h : stringLength? cs = some n) (hliteral : literal.toList = '"' :: cs.take n) :
    Signless literal := by
  refine ⟨⟨'"', by simp [hliteral], by decide⟩, fun rest _ => ?_⟩
  rw [hliteral]
  exact doublesMinus_regular h rest

theorem doublesMinus_verbatim (cs : List Char) {rest : List Char} (hrest : rest.head? ≠ some '"') :
    doublesMinus .verbatim (CSharp.doubleQuotes cs ++ '"' :: rest) = doublesMinus .plain rest := by
  induction cs with
  | nil =>
    cases rest with
    | nil => rfl
    | cons c rest =>
      have hc : c ≠ '"' := by simpa using hrest
      simp [CSharp.doubleQuotes, doublesMinus, hc]
  | cons c cs ih =>
    by_cases hc : c = '"'
    · subst hc
      simpa [CSharp.doubleQuotes, doublesMinus] using ih
    · simpa [CSharp.doubleQuotes, doublesMinus, hc] using ih

theorem signless_verbatim (text : String) : Signless (CSharp.verbatim text) := by
  refine ⟨⟨'@', by simp [CSharp.verbatim], by decide⟩, fun rest hrest => ?_⟩
  have htext : (CSharp.verbatim text).toList ++ rest =
      '@' :: '"' :: (CSharp.doubleQuotes text.toList ++ '"' :: rest) := by
    simp [CSharp.verbatim]
  rw [htext]
  exact doublesMinus_verbatim text.toList hrest

/-- Behind a sign a numeral goes on with no sign. -/
theorem head?_numeralRest (cs : List Char) : (numeralRest '-' cs).head? ≠ some '-' := by
  cases cs with
  | nil => simp [numeralRest]
  | cons c cs =>
    unfold numeralRest
    split
    · rename_i hc
      rw [List.head?_cons]
      rintro ⟨⟩
      exact absurd hc (by decide)
    · simp

theorem isSteady_numeralRest {before : Char} {cs : List Char}
    (h : (before :: numeralRest before cs).getLast? ≠ some '-') :
    isSteady (numeralRest before cs) = true := by
  induction cs generalizing before with
  | nil => rfl
  | cons c cs ih =>
    have hplain := isPlainChar_numeralRest before (c :: cs)
    unfold numeralRest at h hplain ⊢
    split at h
    · rename_i hc
      rw [if_pos hc] at hplain ⊢
      rw [List.getLast?_cons_cons] at h
      have hchar := hplain c List.mem_cons_self
      simp only [isPlainChar, Bool.and_eq_true, bne_iff_ne] at hchar
      have hsign : (c != '-' || (numeralRest c cs).head?.any (· != '-')) = true := by
        by_cases hminus : c = '-'
        · subst hminus
          have hhead := head?_numeralRest cs
          cases hrest : numeralRest '-' cs with
          | nil => simp [hrest] at h
          | cons d ds =>
            rw [hrest] at hhead
            simpa using hhead
        · simp [hminus]
      simp [isSteady, hchar, hsign, ih h]
    · rename_i hc
      rw [if_neg hc]
      rfl

theorem getLast?_of_isNumeral {cs : List Char} (h : isNumeral cs = true) :
    cs.getLast? ≠ some '-' := by
  intro hlast
  obtain ⟨front, rfl⟩ := List.getLast?_eq_some_iff.1 hlast
  have hbody : Text.dropEndWhile isNumeralSuffix (front ++ ['-']) = front ++ ['-'] := by
    simp [Text.dropEndWhile, isNumeralSuffix]
  simp [isNumeral, hbody, isSign] at h

theorem signless_number {literal : String} {c : Char} {cs : List Char}
    (hc : c.isDigit = true ∨ c = '.') (hliteral : literal.toList = c :: numeralRest c cs)
    (hnumeral : isNumeral literal.toList = true) : Signless literal := by
  have hne : c ≠ '-' := by
    rintro rfl
    revert hc
    decide
  have hplain : c ≠ '@' ∧ c ≠ '"' := by
    constructor <;> (rintro rfl; revert hc; decide)
  have hrest := getLast?_of_isNumeral hnumeral
  rw [hliteral] at hrest
  refine signless_of_isSteady ⟨c, by simp [hliteral], hne⟩ ?_
  simp [hliteral, isSteady, hne, hplain, isSteady_numeralRest hrest]

theorem isSteady_of_isIdentChar {cs : List Char} (h : ∀ c ∈ cs, CSharp.isIdentChar c = true) :
    isSteady cs = true := by
  refine isSteady_of_forall fun c hc => ⟨isPlainChar_of_isIdentChar (h c hc), ?_⟩
  rintro rfl
  exact absurd (h _ hc) (by decide)

theorem signless_variableIdent (name : String) : Signless (CSharp.variableIdent name) := by
  obtain ⟨c, cs, htext, hc, -⟩ :=
    (CSharp.isIdentifier_eq_true_iff _).1 (CSharp.isIdentifier_sanitize name)
  have hident := CSharp.isIdentChar_of_isIdentifier (CSharp.isIdentifier_sanitize name)
  have hne : ∀ d, CSharp.isIdentStart d = false → c ≠ d := by
    rintro d hd rfl
    rw [hc] at hd
    cases hd
  unfold CSharp.variableIdent
  dsimp only
  split
  · refine ⟨⟨'@', by simp, by decide⟩, fun rest _ => ?_⟩
    have hhead : ((CSharp.sanitize name).toList ++ rest).head? ≠ some '"' := by
      simpa [htext] using hne '"' (by decide)
    have hmarked : ("@" ++ CSharp.sanitize name).toList ++ rest =
        '@' :: ((CSharp.sanitize name).toList ++ rest) := by simp
    rw [hmarked, doublesMinus_at hhead, doublesMinus_steady (isSteady_of_isIdentChar hident)]
  · split
    · have hmark : "_".toList.all CSharp.isIdentChar = true := by decide
      refine signless_of_isSteady ⟨c, by simp [htext], hne '-' (by decide)⟩ ?_
      rw [String.toList_append]
      exact isSteady_of_isIdentChar (List.forall_mem_append.2 ⟨hident, List.all_eq_true.1 hmark⟩)
    · exact signless_of_isSteady ⟨c, by simp [htext], hne '-' (by decide)⟩
        (isSteady_of_isIdentChar hident)

theorem signless_fixed {code : String} (h : code ∈ fixedCodes) : Signless code := by
  have hfixed : fixedCodes.all (fun code => code.toList.head?.any (· != '-') &&
      isSteady code.toList) = true := by decide
  obtain ⟨hhead, hsteady⟩ := Bool.and_eq_true_iff.1 (List.all_eq_true.1 hfixed code h)
  obtain ⟨c, cs, hcode, hne⟩ := exists_cons_of_any hhead
  exact signless_of_isSteady ⟨c, by simp [hcode], hne⟩ hsteady

theorem signless_leaf {s : Surroundings} {expression : String} {ts : List Token}
    (hscan : scan expression = .ok ts) {code : String} (h : Leaf s ts code) : Signless code := by
  cases h with
  | string hmem =>
    obtain ⟨cs, n, -, hn, hliteral⟩ := string_of_scan hscan hmem
    exact signless_string hn hliteral
  | number hmem =>
    obtain ⟨c, cs, -, hc, hliteral⟩ := number_of_scan hscan hmem
    exact signless_number hc hliteral (isNumeral_of_scan hscan hmem)
  | userVariable _ => exact signless_variableIdent _
  | packageName => exact signless_verbatim _
  | packageId _ => exact signless_verbatim _
  | taskName => exact signless_verbatim _

/-! ## Signs in forms -/

/-- Signs stand side by side in the code as given, and else where they do behind it. -/
def Doubles (b : Bool) (code : String) : Prop :=
  ∀ rest, rest.head? ≠ some '"' →
    doublesMinus .plain (code.toList ++ rest) = (b || doublesMinus .plain rest)

/-- Whether all text of a form is steady, and text stands behind each hole. -/
def Form.isFirm {α : Type} : Form α → Bool
  | [] => true
  | .text s :: t => isSteady s.toList && isFirm t
  | .hole _ :: .text s :: t => !s.toList.isEmpty && isSteady s.toList && isFirm t
  | .hole _ :: _ => false

/-- Signs in a filled form, behind which a quote may stand. -/
theorem doublesMinus_fill {α : Type} {t : Form α} (hfirm : t.isFirm = true) {f : α → String}
    {b : α → Bool} (h : ∀ a, Doubles (b a) (f a)) (rest : List Char) :
    doublesMinus .plain ((t.fill f).toList ++ rest) =
      (t.holes.any b || doublesMinus .plain rest) := by
  fun_induction Form.isFirm t with
  | case1 => rfl
  | case2 s t ih =>
    simp only [Bool.and_eq_true] at hfirm
    rw [Form.fill, String.toList_append, List.append_assoc, doublesMinus_steady hfirm.1, ih hfirm.2]
    rfl
  | case3 a s t ih =>
    simp only [Bool.and_eq_true, Bool.not_eq_true', List.isEmpty_eq_false_iff] at hfirm
    obtain ⟨⟨hne, hsteady⟩, hfirm⟩ := hfirm
    have hhead : ((s ++ Form.fill f t).toList ++ rest).head? ≠ some '"' := by
      obtain ⟨c, cs, hs⟩ := List.exists_cons_of_ne_nil hne
      rw [hs] at hsteady
      simp only [isSteady, Bool.and_eq_true, bne_iff_ne] at hsteady
      simpa [hs] using hsteady.1.1.2
    rw [Form.fill, Form.fill, String.toList_append, List.append_assoc, h a _ hhead,
      String.toList_append, List.append_assoc, doublesMinus_steady hsteady, ih hfirm]
    simp [Form.holes, Bool.or_assoc]
  | case4 => cases hfirm

/-- Whether a form begins with text, and not with a sign. -/
def Form.beginsFirmly {α : Type} : Form α → Bool
  | .text s :: _ => s.toList.head?.any (· != '-')
  | _ => false

theorem head_fill {α : Type} {t : Form α} (h : t.beginsFirmly = true) (f : α → String) :
    ∃ c ∈ (t.fill f).toList.head?, c ≠ '-' := by
  cases t with
  | nil => cases h
  | cons piece t =>
    cases piece with
    | hole a => cases h
    | text s =>
      obtain ⟨c, cs, hs, hne⟩ := exists_cons_of_any h
      exact ⟨c, by simp [Form.fill, hs], hne⟩

theorem castForm?_firm {type : String} {t : Form Unit} (h : castForm? type = some t) :
    t.isFirm = true ∧ t.beginsFirmly = true ∧ t.holes = [()] := by
  have hall := castForm?_all (P := fun t => t.isFirm && t.beginsFirmly && t.holes == [()])
    (by decide) h
  simpa [and_assoc] using hall

theorem callForm?_firm {name : String} {part : Option DatePart} {t : CallForm}
    (h : callForm? name part = some t) : t.code.isFirm = true ∧ t.code.beginsFirmly = true := by
  have hall := callForm?_all (P := fun t => t.code.isFirm && t.code.beginsFirmly)
    (by decide) (by decide) h
  simpa using hall

/-- A form uses every argument, up to a first one that names a part of a date. -/
theorem mem_holes_callForm {name : String} {part : Option DatePart} {t : CallForm}
    (h : callForm? name part = some t) {i : Nat} (hi : i < t.arity) :
    i ∈ t.code.holes ∨ i = 0 ∧ part.isSome = true := by
  have huses : plainForms.all (fun t => (List.range t.arity).all t.code.holes.contains) = true ∧
      dateForms.all (fun t => (List.range' 1 (t.arity - 1)).all t.code.holes.contains) = true := by
    decide
  rcases mem_forms h with hmem | ⟨hpart, hmem⟩
  · have hall := List.all_eq_true.1 (List.all_eq_true.1 huses.1 t hmem) i (List.mem_range.2 hi)
    exact .inl (List.contains_iff_mem.1 hall)
  · rcases Nat.eq_zero_or_pos i with rfl | hpos
    · exact .inr ⟨rfl, hpart⟩
    · have hrange : i ∈ List.range' 1 (t.arity - 1) := List.mem_range'_1.2 ⟨hpos, by omega⟩
      have hall := List.all_eq_true.1 (List.all_eq_true.1 huses.2 t hmem) i hrange
      exact .inl (List.contains_iff_mem.1 hall)

/-! ## Signs in tokens -/

/-- Whether an operand may end with a token. -/
def Token.endsOperand : Token → Bool
  | .variable _ _ | .string _ | .number _ | .word _ | .closeParen => true
  | _ => false

/-- Whether a minus sign that belongs to a single operand stands right before another one. The first
argument says whether an operand ends where the row begins: the sign behind it takes two operands. -/
def doublesSign : Bool → List Token → Bool
  | _, [] => false
  | _, .word _ :: .cast _ :: ts => doublesSign true ts
  | operandBefore, token :: ts =>
    (!operandBefore && token == .operator .minus && ts.head? == some (.operator .minus))
      || doublesSign token.endsOperand ts

theorem doublesSign_cons {token : Token} {ts : List Token}
    (h : ∀ word type, token = .word word → ts.head? ≠ some (.cast type)) (b : Bool) :
    doublesSign b (token :: ts) =
      ((!b && token == .operator .minus && ts.head? == some (.operator .minus))
        || doublesSign token.endsOperand ts) := by
  rw [doublesSign]
  rintro word type us rfl rfl
  exact h word type rfl rfl

theorem doublesSign_cons_of_ne {token : Token} (ends : Bool) (hword : ∀ word, token ≠ .word word)
    (hsign : token ≠ .operator .minus) (hends : token.endsOperand = ends) (b : Bool)
    (ts : List Token) : doublesSign b (token :: ts) = doublesSign ends ts := by
  rw [doublesSign_cons fun word _ h => absurd h (hword word), hends]
  simp [hsign]

theorem doublesSign_minus (ts : List Token) :
    doublesSign false (.operator .minus :: ts) =
      (ts.head? == some (.operator .minus) || doublesSign false ts) := by
  rw [doublesSign_cons (by simp)]
  rfl

/-- An operator behind an operand belongs to two. -/
theorem doublesSign_operator (op : Operator) (ts : List Token) :
    doublesSign true (.operator op :: ts) = doublesSign false ts := by
  rw [doublesSign_cons (by simp)]
  rfl

theorem doublesSign_word (word : String) {ts : List Token}
    (h : ∀ type, ts.head? ≠ some (.cast type)) (b : Bool) :
    doublesSign b (.word word :: ts) = doublesSign true ts := by
  rw [doublesSign_cons fun _ type _ => h type, beq_eq_false_iff_ne.2 (by simp)]
  simp [Token.endsOperand]

/-! ## Code and its tokens -/

/-- Signs stand side by side in a row of tokens and in its code alike, alone and with others behind. -/
structure SignsAgree (ts : List Token) (code : String) : Prop where
  head : ∃ c ∈ code.toList.head?, (c = '-' ↔ ts.head? = some (.operator .minus))
  tokens : ∀ rest, follows rest = true →
    doublesSign false (ts ++ rest) = (doublesSign false ts || doublesSign true rest)
  code : Doubles (doublesSign false ts) code

theorem SignsAgree.of_eq {ts : List Token} {code : String} (b : Bool)
    (hhead : ∃ c ∈ code.toList.head?, (c = '-' ↔ ts.head? = some (.operator .minus)))
    (htokens : ∀ rest, follows rest = true →
      doublesSign false (ts ++ rest) = (b || doublesSign true rest))
    (hcode : Doubles b code) : SignsAgree ts code := by
  have hb : doublesSign false ts = b := by simpa [doublesSign] using htokens [] rfl
  subst hb
  exact ⟨hhead, htokens, hcode⟩

theorem SignsAgree.of_signless {ts : List Token} {code : String} (h : Signless code)
    (hhead : ts.head? ≠ some (.operator .minus))
    (htokens : ∀ rest, follows rest = true → doublesSign false (ts ++ rest) = doublesSign true rest) :
    SignsAgree ts code := by
  obtain ⟨c, hc, hne⟩ := h.head
  refine .of_eq false ⟨c, hc, iff_of_false hne hhead⟩ ?_ ?_
  · simpa using htokens
  · simpa [Doubles] using h.scan

/-- Code of one token that is no word. -/
theorem SignsAgree.of_token {token : Token} {code : String} (h : Signless code)
    (htoken : token.endsOperand = true) (hword : ∀ word, token ≠ .word word) :
    SignsAgree [token] code := by
  have hsign : token ≠ .operator .minus := by
    rintro rfl
    cases htoken
  refine .of_signless h (by simpa using hsign) fun rest _ => ?_
  rw [List.singleton_append, doublesSign_cons_of_ne true hword hsign htoken]

theorem SignsAgree.doublesMinus_eq {ts : List Token} {code : String} (h : SignsAgree ts code) :
    doublesMinus .plain code.toList = doublesSign false ts := by
  have hcode := h.code [] (by simp)
  rw [List.append_nil] at hcode
  rw [hcode, doublesMinus, Bool.or_false]

/-! ## Calls -/

section Call

variable {args : List (List Token × String)} (h : ∀ arg ∈ args, SignsAgree arg.1 arg.2)
include h

theorem doublesSign_arguments (rest : List Token) :
    doublesSign false ([Token.comma].intercalate (args.map (·.1)) ++ .closeParen :: rest) =
      (args.any (fun arg => doublesSign false arg.1) || doublesSign true rest) := by
  have hclose : ∀ b, doublesSign b (.closeParen :: rest) = doublesSign true rest :=
    fun b => doublesSign_cons_of_ne true (by simp) (by simp) rfl b rest
  have hcomma : ∀ ts, doublesSign true (.comma :: ts) = doublesSign false ts :=
    fun ts => doublesSign_cons_of_ne false (by simp) (by simp) rfl true ts
  induction args with
  | nil => exact hclose false
  | cons arg args ih =>
    have harg := h arg List.mem_cons_self
    cases args with
    | nil => simp [harg.tokens (.closeParen :: rest) rfl, hclose]
    | cons next args =>
      have hothers := ih fun a ha => h a (List.mem_cons_of_mem _ ha)
      rw [argumentTokens_cons, List.append_assoc, harg.tokens _ rfl, List.cons_append, hcomma,
        hothers, ← Bool.or_assoc]
      rfl

theorem doubles_getD (i : Nat) :
    Doubles (doublesSign false ((args.map (·.1)).getD i [])) ((args.map (·.2)).getD i "") := by
  by_cases hi : i < args.length
  · simpa [hi] using (h args[i] (List.getElem_mem hi)).code
  · intro rest _
    simp [hi, doublesSign]

/-- The signs of the arguments are those in the holes: a first argument without a hole names a part of a
date, and has no sign. -/
theorem any_holes {name : String} {c : CallForm}
    (hc : callForm? name (firstPart? (args.map (·.2))) = some c) (hlength : args.length = c.arity) :
    c.code.holes.any (fun i => doublesSign false ((args.map (·.1)).getD i [])) =
      args.any fun arg => doublesSign false arg.1 := by
  rw [Bool.eq_iff_iff, List.any_eq_true, List.any_eq_true]
  constructor
  · rintro ⟨i, -, hdoubles⟩
    by_cases hi : i < args.length
    · exact ⟨args[i], List.getElem_mem hi, by simpa [hi] using hdoubles⟩
    · simp [hi, doublesSign] at hdoubles
  · rintro ⟨arg, harg, hdoubles⟩
    obtain ⟨i, hi, rfl⟩ := List.getElem_of_mem harg
    rcases mem_holes_callForm hc (hlength ▸ hi) with hhole | ⟨rfl, hpart⟩
    · exact ⟨i, hhole, by simpa [hi] using hdoubles⟩
    · exfalso
      obtain ⟨first, others, rfl⟩ := List.exists_cons_of_length_pos hi
      rw [List.getElem_cons_zero, ← (h first List.mem_cons_self).doublesMinus_eq] at hdoubles
      rw [List.map_cons, firstPart?_cons,
        ofWord?_of_foreign (mem_of_doublesMinus hdoubles) (by decide)] at hpart
      cases hpart

end Call

/-! ## Expressions -/

/-- Code that is a filled form. -/
theorem signsAgree_fill {α : Type} {t : Form α} (hfirm : t.isFirm = true)
    (hbegins : t.beginsFirmly = true) {f : α → String} {b : α → Bool} (h : ∀ a, Doubles (b a) (f a))
    {ts : List Token} (hhead : ts.head? ≠ some (.operator .minus))
    (htokens : ∀ rest, follows rest = true →
      doublesSign false (ts ++ rest) = (t.holes.any b || doublesSign true rest)) :
    SignsAgree ts (t.fill f) := by
  obtain ⟨c, hc, hne⟩ := head_fill hbegins f
  exact .of_eq _ ⟨c, hc, iff_of_false hne hhead⟩ htokens fun rest _ =>
    doublesMinus_fill hfirm h rest

theorem SignsAgree.group {ts : List Token} {code : String} (h : SignsAgree ts code) :
    SignsAgree (.openParen :: (ts ++ [.closeParen])) (paren code) := by
  rw [← Form.fill_enclosed (fun _ => code) ()]
  refine signsAgree_fill rfl (by decide) (fun _ => h.code) (by simp) fun rest _ => ?_
  rw [List.cons_append, List.append_assoc, doublesSign_cons_of_ne false (by simp) (by simp) rfl,
    h.tokens _ rfl, List.singleton_append, doublesSign_cons_of_ne true (by simp) (by simp) rfl]
  simp [Form.enclosed, Form.holes]

theorem SignsAgree.cast {type out : String} {ts : List Token} {code : String}
    (h : SignsAgree ts code) (hout : castCode type code = .ok out) :
    SignsAgree (.cast type :: ts) out := by
  obtain ⟨t, ht, rfl⟩ := (castCode_eq_ok_iff _ _ _).1 hout
  obtain ⟨hfirm, hbegins, hholes⟩ := castForm?_firm ht
  refine signsAgree_fill hfirm hbegins (fun _ => h.code) (by simp) fun rest hrest => ?_
  rw [List.cons_append, doublesSign_cons_of_ne false (by simp) (by simp) rfl, h.tokens rest hrest,
    hholes]
  simp

theorem signsAgree_call {word code : String} {args : List (List Token × String)}
    (h : ∀ arg ∈ args, SignsAgree arg.1 arg.2)
    (hcode : functionCode (Text.upper word) (args.map (·.2)) = .ok code) :
    SignsAgree (.word word :: .openParen ::
      ([Token.comma].intercalate (args.map (·.1)) ++ [.closeParen])) code := by
  obtain ⟨c, hc, hlength, rfl⟩ := (functionCode_eq_ok_iff _ _ _).1 hcode
  obtain ⟨hfirm, hbegins⟩ := callForm?_firm hc
  refine signsAgree_fill hfirm hbegins (doubles_getD h) (by simp) fun rest _ => ?_
  rw [any_holes h hc (by simpa using hlength), ← doublesSign_arguments h rest, List.cons_append,
    List.cons_append, doublesSign_word word (by simp),
    doublesSign_cons_of_ne false (by simp) (by simp) rfl, List.append_assoc]
  rfl

theorem SignsAgree.unary {op : Operator} {ts : List Token} {code : String}
    (hop : op = .minus ∨ op = .not ∨ op = .complement) (hne : ts ≠ []) (h : SignsAgree ts code) :
    SignsAgree (.operator op :: ts) (op.symbol ++ code) := by
  obtain ⟨c, hc, hiff⟩ := h.head
  obtain ⟨cs, hcode⟩ := List.head?_eq_some_iff.1 hc
  rcases hop with rfl | hop
  · refine .of_eq (ts.head? == some (.operator .minus) || doublesSign false ts)
      ⟨'-', by simp [Operator.symbol], by simp⟩ (fun rest hrest => ?_) fun rest hrest => ?_
    · rw [List.cons_append, doublesSign_minus, List.head?_append_of_ne_nil _ hne,
        h.tokens rest hrest, Bool.or_assoc]
    · have htext : (Operator.minus.symbol ++ code).toList ++ rest = '-' :: (code.toList ++ rest) := by
        simp [Operator.symbol]
      rw [htext]
      by_cases hminus : c = '-'
      · rw [hiff.1 hminus, hcode, hminus]
        simp [doublesMinus]
      · have hfirst : (ts.head? == some (.operator .minus)) = false := by simpa [hiff] using hminus
        rw [doublesMinus_minus (by simpa [hcode] using hminus), h.code rest hrest, hfirst]
        rfl
  · have hsymbol : ∃ d, op.symbol.toList = [d] ∧ d ≠ '@' ∧ d ≠ '"' ∧ d ≠ '-' := by
      rcases hop with rfl | rfl
      · exact ⟨'!', by decide⟩
      · exact ⟨'~', by decide⟩
    have hsign : op ≠ .minus := by
      rcases hop with rfl | rfl <;> decide
    obtain ⟨d, hd, hat, hquote, hminus⟩ := hsymbol
    refine .of_eq (doublesSign false ts) ⟨d, by simp [hd], by simp [hminus, hsign]⟩
      (fun rest hrest => ?_) fun rest hrest => ?_
    · rw [List.cons_append, doublesSign_cons_of_ne false (by simp) (by simpa using hsign) rfl,
        h.tokens rest hrest]
    · rw [String.toList_append, hd, List.append_assoc, List.singleton_append,
        doublesMinus_plainChar hat hquote hminus, h.code rest hrest]

theorem SignsAgree.join {ts us : List Token} {code next : String} (op : Operator)
    (hne : ts ≠ []) (hx : SignsAgree ts code) (hy : SignsAgree us next) :
    SignsAgree (ts ++ .operator op :: us) (code ++ " " ++ op.symbol ++ " " ++ next) := by
  obtain ⟨c, hc, hiff⟩ := hx.head
  obtain ⟨cs, hcode⟩ := List.head?_eq_some_iff.1 hc
  have hsteady : isSteady (" " ++ op.symbol ++ " ").toList = true := by cases op <;> decide
  refine .of_eq (doublesSign false ts || doublesSign false us) ⟨c, by simp [hcode], ?_⟩
    (fun rest hrest => ?_) fun rest hrest => ?_
  · rw [hiff, List.head?_append_of_ne_nil _ hne]
  · rw [List.append_assoc, hx.tokens _ rfl, List.cons_append, doublesSign_operator,
      hy.tokens rest hrest, Bool.or_assoc]
  · have htext : (code ++ " " ++ op.symbol ++ " " ++ next).toList ++ rest =
        code.toList ++ ((" " ++ op.symbol ++ " ").toList ++ (next.toList ++ rest)) := by
      simp
    rw [htext, hx.code _ (by simp), doublesMinus_steady hsteady, hy.code rest hrest, Bool.or_assoc]

theorem Derives.signsAgree {s : Surroundings} {phrase : Phrase} {ts : List Token} {code : String}
    (h : Derives s phrase ts code) (hleaf : ∀ c, Leaf s ts c → Signless c) :
    SignsAgree ts code := by
  induction h with
  | userVariable name h =>
    exact .of_token (hleaf _ (.userVariable List.mem_cons_self)) rfl (by simp)
  | systemVariable h hcode =>
    refine .of_token ?_ rfl (by simp)
    cases hcode with
    | packageName => exact hleaf _ .packageName
    | packageId hid => exact hleaf _ (.packageId hid)
    | taskName => exact hleaf _ .taskName
    | _ => exact signless_fixed (by decide)
  | string literal => exact .of_token (hleaf _ (.string List.mem_cons_self)) rfl (by simp)
  | number literal => exact .of_token (hleaf _ (.number List.mem_cons_self)) rfl (by simp)
  | @unary op ts code h hx ih =>
    have hinner := ih fun c hc => hleaf c (hc.mono (List.subset_cons_self _ _))
    exact hinner.unary h (List.ne_nil_of_length_pos hx.length_pos)
  | group hx ih =>
    refine (ih fun c hc => hleaf c (hc.mono ?_)).group
    exact List.subset_cons_of_subset _ (List.subset_append_left _ _)
  | cast hx h ih =>
    exact (ih fun c hc => hleaf c (hc.mono (List.subset_cons_self _ _))).cast h
  | @trueWord word h =>
    refine .of_signless (signless_fixed (by decide)) (by simp) fun rest hrest => ?_
    exact doublesSign_word word (fun _ => head?_ne_of_follows hrest rfl) false
  | @falseWord word h =>
    refine .of_signless (signless_fixed (by decide)) (by simp) fun rest hrest => ?_
    exact doublesSign_word word (fun _ => head?_ne_of_follows hrest rfl) false
  | nullWord type h =>
    exact .of_signless (signless_fixed (by decide)) (by simp) fun rest hrest => rfl
  | call args hargs h ih =>
    refine signsAgree_call (fun arg harg => ih arg harg fun c hc => hleaf c (hc.mono ?_)) h
    exact subset_callTokens harg
  | single hx ih => exact ih hleaf
  | join op hx hy ihx ihy =>
    have hleft := ihx fun c hc => hleaf c (hc.mono (List.subset_append_left _ _))
    have hright := ihy fun c hc => hleaf c
      (hc.mono (List.subset_append_of_subset_right _ (List.subset_cons_self _ _)))
    exact hleft.join op (List.ne_nil_of_length_pos hx.length_pos) hright

/-! ## Compiled code -/

/-- In compiled code two minus signs stand side by side outside of literals exactly if, among the tokens
of the expression, a minus sign of a single operand stands right before another minus sign. -/
theorem doublesMinus_compile (t : Tree) (id : NodeId) (expression code : String)
    (h : compile (.ofNode t id) expression = .ok code) :
    ∃ ts, scan expression = .ok ts ∧
      doublesMinus .plain code.toList = doublesSign false ts := by
  obtain ⟨ts, hscan, hd⟩ := (compile_eq_ok_iff _ expression code).1 h
  have hagree := hd.signsAgree fun c hc => signless_leaf hscan hc
  exact ⟨ts, hscan, hagree.doublesMinus_eq⟩

/-- Signs of all kinds, none of which stand side by side. -/
theorem doublesMinus_compile_apart :
    compile (.ofNode identifiedTree 0) "-(DT_I4) -1e-5 - -DATEADD(\"day\", -@n, @d)" =
        .ok "-Convert.ToInt32(-1e-5) - -(d).AddDays(-n)" ∧
      ∃ ts, scan "-(DT_I4) -1e-5 - -DATEADD(\"day\", -@n, @d)" = .ok ts ∧
        doublesSign false ts = false := by
  have h : compile (.ofNode identifiedTree 0) "-(DT_I4) -1e-5 - -DATEADD(\"day\", -@n, @d)" =
      .ok "-Convert.ToInt32(-1e-5) - -(d).AddDays(-n)" := eq_ok_of_toOption (by decide +kernel)
  obtain ⟨ts, hscan, hagree⟩ := doublesMinus_compile identifiedTree 0 _ _ h
  refine ⟨h, ts, hscan, ?_⟩
  rw [← hagree]
  decide +kernel

/-- A sign before a sign: the two make up a decrement. -/
theorem doublesMinus_compile_joined :
    compile (.ofNode identifiedTree 0) "- -@x" = .ok "--x" ∧
      doublesMinus .plain "--x".toList = true :=
  ⟨eq_ok_of_toOption (by decide +kernel), by decide +kernel⟩

end SsisCompiler.Expression
