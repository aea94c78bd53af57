import Mathlib.Data.List.GetD
import Mathlib.Tactic.Choose
import SsisCompiler.Proofs.Expression.Forms
import SsisCompiler.Proofs.Expression.Tokens
import SsisCompiler.Proofs.Text.Pieces

/-!
# Parts of dates

A function of dates takes the part from the code of its first argument, with the quotes around it taken
off. So it is not only a literal that names a part: the identifier of a variable may do so as well, and
nothing else does, since all other code has a character that no word of a part has. Variables that name
parts make an expression depend on how its variables are called.

Results:
* `Derives.exists_token_of_part`: code that names a part is that of a single token.
* `Derives.partsRead`: the first argument of every function of dates is such a token.
* `Derives.exists_form`: if literals name all parts, renaming variables changes only identifiers.
* `dateParts_compile`: the three facts of a compiled expression.
-/

namespace SsisCompiler.Expression

open Package (NodeId Tree)
open Text (isBlank)

/-! ## Words that name a part -/

/-- Whether a character stands in no word of a part, and is not taken off around one. -/
def isForeign (c : Char) : Bool :=
  !isBlank c && c != '"' && !c.toLower.isLower

theorem mem_partWord {code : String} {c : Char} (h : c ∈ code.toList) (hblank : isBlank c = false)
    (hquote : c ≠ '"') : c.toLower ∈ (partWord code).toList := by
  have htrim : c ∈ (Text.trim code).toList := by
    rw [Text.trim, String.toList_ofList]
    exact Text.mem_trimWhile h hblank
  rw [partWord, Text.lower, String.toList_ofList, String.toList_ofList]
  exact List.mem_map_of_mem (Text.mem_trimWhile htrim (by simpa using hquote))

theorem all_isLower_of_ofWord? {word : String} {p : DatePart} (h : DatePart.ofWord? word = some p) :
    word.toList.all Char.isLower = true := by
  unfold DatePart.ofWord? at h
  split at h
  case h_27 => cases h
  all_goals rfl

/-- Code with a foreign character names no part. -/
theorem ofWord?_of_foreign {code : String} {c : Char} (h : c ∈ code.toList)
    (hc : isForeign c = true) : DatePart.ofWord? (partWord code) = none := by
  simp only [isForeign, Bool.and_eq_true, Bool.not_eq_true', bne_iff_ne] at hc
  obtain ⟨⟨hblank, hquote⟩, hlower⟩ := hc
  rw [Option.eq_none_iff_forall_ne_some]
  intro p hp
  have hall := List.all_eq_true.1 (all_isLower_of_ofWord? hp) _ (mem_partWord h hblank hquote)
  rw [hlower] at hall
  cases hall

theorem isForeign_of_isDigit {c : Char} (h : c.isDigit = true) : isForeign c = true :=
  Text.of_isDigit (by decide) h

theorem exists_foreign_symbol (op : Operator) : ∃ c ∈ op.symbol.toList, isForeign c = true := by
  have hany : op.symbol.toList.any isForeign = true := by cases op <;> decide
  exact List.any_eq_true.1 hany

/-- Whether a form begins with text that has a mark no word has. -/
def Form.isMarked {α : Type} : Form α → Bool
  | .text s :: _ => s.toList.any fun c => c == '(' || c == '.'
  | _ => false

theorem isMarked_castForm {type : String} {t : Form Unit} (h : castForm? type = some t) :
    t.isMarked = true :=
  castForm?_all (P := Form.isMarked) (by decide) h

theorem isMarked_callForm {name : String} {part : Option DatePart} {t : CallForm}
    (h : callForm? name part = some t) : t.code.isMarked = true :=
  callForm?_all (P := fun t => t.code.isMarked) (by decide) (by decide) h

/-- The code of a form that has a mark names no part. -/
theorem ofWord?_fill {α : Type} {t : Form α} (h : t.isMarked = true) (f : α → String) :
    DatePart.ofWord? (partWord (t.fill f)) = none := by
  cases t with
  | nil => cases h
  | cons piece t =>
    cases piece with
    | hole a => cases h
    | text s =>
      obtain ⟨c, hmem, hc⟩ := List.any_eq_true.1 h
      have hforeign : isForeign c = true := by
        simp only [Bool.or_eq_true, beq_iff_eq] at hc
        rcases hc with rfl | rfl <;> decide
      refine ofWord?_of_foreign ?_ hforeign
      rw [Form.fill, String.toList_append]
      exact List.mem_append_left _ hmem

theorem ofWord?_fixed : ∀ code ∈ fixedCodes, DatePart.ofWord? (partWord code) = none := by
  decide

theorem ofWord?_systemCode {s : Surroundings} {name code : String} (h : SystemCode s name code) :
    DatePart.ofWord? (partWord code) = none := by
  have hverbatim : ∀ text, DatePart.ofWord? (partWord (CSharp.verbatim text)) = none := by
    intro text
    have hmark : '@' ∈ (CSharp.verbatim text).toList := by simp [CSharp.verbatim]
    exact ofWord?_of_foreign hmark (by decide)
  cases h with
  | packageName => exact hverbatim _
  | packageId _ => exact hverbatim _
  | taskName => exact hverbatim _
  | _ => exact ofWord?_fixed _ (by decide)

/-! ## Arguments that name a part -/

/-- Whether a token names a part of a date: a literal, or a variable outside of the system's. -/
def Token.namesPart : Token → Bool
  | .string literal => (DatePart.ofWord? (partWord literal)).isSome
  | .variable scope name =>
    !isSystemScope scope && (DatePart.ofWord? (partWord (CSharp.variableIdent name))).isSome
  | _ => false

/-- Every numeral among the tokens begins as numerals do. -/
def NumeralsBegin (ts : List Token) : Prop :=
  ∀ literal, .number literal ∈ ts →
    ∃ c cs, literal.toList = c :: cs ∧ (c.isDigit = true ∨ c = '.')

theorem NumeralsBegin.mono {ts us : List Token} (h : NumeralsBegin us) (hsub : ts ⊆ us) :
    NumeralsBegin ts :=
  fun literal hmem => h literal (hsub hmem)

theorem numeralsBegin_of_scan {text : String} {ts : List Token} (h : scan text = .ok ts) :
    NumeralsBegin ts := by
  intro literal hmem
  obtain ⟨c, cs, -, hc, hliteral⟩ := number_of_scan h hmem
  exact ⟨c, numeralRest c cs, hliteral, hc⟩

/-- Code that names a part is that of a single token: all other code has a foreign character. -/
theorem Derives.exists_token_of_part {s : Surroundings} {phrase : Phrase} {ts : List Token}
    {code : String} (h : Derives s phrase ts code) (hnumerals : NumeralsBegin ts) {p : DatePart}
    (hp : DatePart.ofWord? (partWord code) = some p) :
    ∃ token, ts = [token] ∧ token.namesPart = true := by
  induction h with
  | userVariable name h => exact ⟨_, rfl, by simp [Token.namesPart, h, hp]⟩
  | systemVariable h hcode =>
    rw [ofWord?_systemCode hcode] at hp
    cases hp
  | string literal => exact ⟨_, rfl, by simp [Token.namesPart, hp]⟩
  | number literal =>
    obtain ⟨c, cs, hliteral, hc⟩ := hnumerals literal List.mem_cons_self
    have hforeign : isForeign c = true := by
      rcases hc with hc | rfl
      · exact isForeign_of_isDigit hc
      · decide
    rw [ofWord?_of_foreign (by simp [hliteral]) hforeign] at hp
    cases hp
  | @unary op ts code h hx ih =>
    obtain ⟨c, hmem, hc⟩ := exists_foreign_symbol op
    rw [ofWord?_of_foreign (by simp [hmem]) hc] at hp
    cases hp
  | @group ts code hx ih =>
    rw [ofWord?_of_foreign (c := '(') (by simp [paren]) (by decide)] at hp
    cases hp
  | cast hx h ih =>
    obtain ⟨t, ht, rfl⟩ := (castCode_eq_ok_iff _ _ _).1 h
    rw [ofWord?_fill (isMarked_castForm ht)] at hp
    cases hp
  | trueWord _ | falseWord _ | nullWord _ _ =>
    rw [ofWord?_fixed _ (by decide)] at hp
    cases hp
  | call args hargs h ih =>
    obtain ⟨t, ht, -, rfl⟩ := (functionCode_eq_ok_iff _ _ _).1 h
    rw [ofWord?_fill (isMarked_callForm ht)] at hp
    cases hp
  | single hx ih => exact ih hnumerals hp
  | join op hx hy ihx ihy =>
    obtain ⟨c, hmem, hc⟩ := exists_foreign_symbol op
    rw [ofWord?_of_foreign (by simp [hmem]) hc] at hp
    cases hp

/-! ## The calls in a row of tokens -/

/-- What stands behind the opening parenthesis of each call of such a function, up to a comma. -/
def dateParts : List Token → List (List Token)
  | [] => []
  | .word word :: .openParen :: ts =>
    if Text.upper word ∈ dateFunctions then ts.takeWhile (· != .comma) :: dateParts ts
    else dateParts ts
  | _ :: ts => dateParts ts

/-- Whether a row of tokens can stand behind a phrase. -/
def follows : List Token → Bool
  | [] => true
  | .operator _ :: _ => true
  | .closeParen :: _ => true
  | .comma :: _ => true
  | _ => false

theorem dateParts_cons {token : Token} (h : ∀ word, token ≠ .word word) (ts : List Token) :
    dateParts (token :: ts) = dateParts ts := by
  cases token with
  | word word => exact absurd rfl (h word)
  | _ => rfl

theorem dateParts_word (word : String) {ts : List Token} (h : ts.head? ≠ some .openParen) :
    dateParts (.word word :: ts) = dateParts ts := by
  cases ts with
  | nil => rfl
  | cons token ts =>
    cases token with
    | openParen => exact absurd rfl h
    | _ => rfl

theorem head?_ne_of_follows {ts : List Token} (h : follows ts = true) {token : Token}
    (htoken : follows [token] = false) : ts.head? ≠ some token := by
  intro hhead
  obtain ⟨us, rfl⟩ := List.head?_eq_some_iff.1 hhead
  have hsame : follows (token :: us) = follows [token] := by cases token <;> rfl
  rw [hsame, htoken] at h
  cases h

/-- The parts in a row of tokens, alone and with others behind it. -/
structure PartsRead (ts : List Token) : Prop where
  append : ∀ rest, follows rest = true → dateParts (ts ++ rest) = dateParts ts ++ dateParts rest
  named : ∀ part ∈ dateParts ts, ∃ token, part = [token] ∧ token.namesPart = true

theorem PartsRead.of_eq {ts : List Token} (parts : List (List Token))
    (h : ∀ rest, follows rest = true → dateParts (ts ++ rest) = parts ++ dateParts rest)
    (hnamed : ∀ part ∈ parts, ∃ token, part = [token] ∧ token.namesPart = true) : PartsRead ts := by
  have hparts : dateParts ts = parts := by simpa [dateParts] using h [] rfl
  exact ⟨fun rest hrest => by rw [hparts, h rest hrest], by rwa [hparts]⟩

theorem PartsRead.cons {token : Token} (htoken : ∀ word, token ≠ .word word) {ts : List Token}
    (h : PartsRead ts) : PartsRead (token :: ts) := by
  refine .of_eq _ (fun rest hrest => ?_) h.named
  rw [List.cons_append, dateParts_cons htoken, h.append rest hrest]

theorem partsRead_nil : PartsRead [] :=
  ⟨fun rest _ => rfl, by simp [dateParts]⟩

theorem subset_callTokens {word : String} {args : List (List Token × String)}
    {arg : List Token × String} (h : arg ∈ args) :
    arg.1 ⊆ .word word :: .openParen ::
      ([Token.comma].intercalate (args.map (·.1)) ++ [.closeParen]) :=
  List.subset_cons_of_subset _ (List.subset_cons_of_subset _
    (List.subset_append_of_subset_left _ (subset_argumentTokens h)))

/-- The parts in the arguments of a call, and behind it. -/
theorem dateParts_arguments {args : List (List Token × String)}
    (h : ∀ arg ∈ args, PartsRead arg.1) (rest : List Token) :
    dateParts ([Token.comma].intercalate (args.map (·.1)) ++ .closeParen :: rest) =
      args.flatMap (fun arg => dateParts arg.1) ++ dateParts rest := by
  induction args with
  | nil => simp [dateParts]
  | cons arg args ih =>
    have harg := h arg List.mem_cons_self
    cases args with
    | nil =>
      simp [harg.append (.closeParen :: rest) rfl, dateParts]
    | cons next args =>
      have hothers := ih fun a ha => h a (List.mem_cons_of_mem _ ha)
      rw [argumentTokens_cons, List.append_assoc, harg.append _ rfl, List.cons_append,
        dateParts_cons (by simp), hothers]
      simp only [List.flatMap_cons, List.append_assoc]

section Call

variable {s : Surroundings} {word code : String} {args : List (List Token × String)}

/-- The first argument of a function of dates is a single token that names a part. -/
theorem exists_first_part (hargs : ∀ arg ∈ args, Derives s .sequence arg.1 arg.2)
    (hnumerals : ∀ arg ∈ args, NumeralsBegin arg.1)
    (h : functionCode (Text.upper word) (args.map (·.2)) = .ok code)
    (hname : Text.upper word ∈ dateFunctions) :
    ∃ token next others first, args = ([token], first) :: next :: others ∧
      token.namesPart = true := by
  obtain ⟨t, ht, hlength, -⟩ := (functionCode_eq_ok_iff _ _ _).1 h
  obtain ⟨⟨p, hp⟩, harity⟩ := callForm?_dates hname ht
  rw [List.length_map] at hlength
  rcases args with _ | ⟨first, _ | ⟨next, others⟩⟩
  · simp at hlength
    omega
  · simp at hlength
    omega
  · rw [List.map_cons, firstPart?_cons] at hp
    obtain ⟨token, htoken, hnames⟩ := (hargs first List.mem_cons_self).exists_token_of_part
      (hnumerals first List.mem_cons_self) hp
    exact ⟨token, next, others, first.2, by rw [← htoken], hnames⟩

variable (word args) in
/-- The parts in a call: the first argument of a function of dates, and those in the arguments. -/
def callParts : List (List Token) :=
  (if Text.upper word ∈ dateFunctions then (args.take 1).map (·.1) else []) ++
    args.flatMap fun arg => dateParts arg.1

theorem dateParts_call (hargs : ∀ arg ∈ args, Derives s .sequence arg.1 arg.2)
    (hnumerals : ∀ arg ∈ args, NumeralsBegin arg.1)
    (h : functionCode (Text.upper word) (args.map (·.2)) = .ok code)
    (hread : ∀ arg ∈ args, PartsRead arg.1) (rest : List Token) :
    dateParts (.word word :: .openParen ::
        ([Token.comma].intercalate (args.map (·.1)) ++ .closeParen :: rest)) =
      callParts word args ++ dateParts rest := by
  rw [dateParts, dateParts_arguments hread, callParts]
  split
  · rename_i hname
    obtain ⟨token, next, others, first, rfl, hnames⟩ := exists_first_part hargs hnumerals h hname
    have hcomma : (token != .comma) = true := by
      cases token with
      | comma => cases hnames
      | _ => rfl
    rw [argumentTokens_cons]
    simp [hcomma]
  · simp

theorem partsRead_call (hargs : ∀ arg ∈ args, Derives s .sequence arg.1 arg.2)
    (hnumerals : ∀ arg ∈ args, NumeralsBegin arg.1)
    (h : functionCode (Text.upper word) (args.map (·.2)) = .ok code)
    (hread : ∀ arg ∈ args, PartsRead arg.1) :
    PartsRead (.word word :: .openParen ::
      ([Token.comma].intercalate (args.map (·.1)) ++ [.closeParen])) := by
  refine .of_eq (callParts word args) (fun rest _ => ?_) (fun part hpart => ?_)
  · rw [List.cons_append, List.cons_append, List.append_assoc, List.singleton_append]
    exact dateParts_call hargs hnumerals h hread rest
  · rcases List.mem_append.1 hpart with hfirst | hinner
    · split at hfirst
      · rename_i hname
        obtain ⟨token, next, others, first, rfl, hnames⟩ := exists_first_part hargs hnumerals h hname
        obtain rfl : part = [token] := by simpa using hfirst
        exact ⟨token, rfl, hnames⟩
      · cases hfirst
    · obtain ⟨arg, harg, hmem⟩ := List.mem_flatMap.1 hinner
      exact (hread arg harg).named part hmem

end Call

theorem Derives.partsRead {s : Surroundings} {phrase : Phrase} {ts : List Token} {code : String}
    (h : Derives s phrase ts code) (hnumerals : NumeralsBegin ts) : PartsRead ts := by
  induction h with
  | userVariable name h => exact partsRead_nil.cons (by simp)
  | systemVariable h hcode => exact partsRead_nil.cons (by simp)
  | string literal => exact partsRead_nil.cons (by simp)
  | number literal => exact partsRead_nil.cons (by simp)
  | unary h hx ih => exact (ih (hnumerals.mono (List.subset_cons_self _ _))).cons (by simp)
  | @group ts code hx ih =>
    have hinner := ih (hnumerals.mono (List.subset_cons_of_subset _ (List.subset_append_left _ _)))
    refine .of_eq _ (fun rest _ => ?_) hinner.named
    rw [List.cons_append, dateParts_cons (by simp), List.append_assoc, hinner.append _ rfl]
    rfl
  | cast hx h ih => exact (ih (hnumerals.mono (List.subset_cons_self _ _))).cons (by simp)
  | @trueWord word h | @falseWord word h =>
    refine .of_eq [] (fun rest hrest => ?_) (by simp)
    exact dateParts_word word (head?_ne_of_follows hrest rfl)
  | @nullWord word type h =>
    refine .of_eq [] (fun rest hrest => ?_) (by simp)
    exact dateParts_word word (by simp)
  | call args hargs h ih =>
    have hinner := fun arg harg => hnumerals.mono (@subset_callTokens _ args arg harg)
    exact partsRead_call hargs hinner h fun arg harg => ih arg harg (hinner arg harg)
  | single hx ih => exact ih hnumerals
  | join op hx hy ihx ihy =>
    have hleft := ihx (hnumerals.mono (List.subset_append_left _ _))
    have hright := ihy
      (hnumerals.mono (List.subset_append_of_subset_right _ (List.subset_cons_self _ _)))
    refine .of_eq (_ ++ _) (fun rest hrest => ?_)
      (List.forall_mem_append.2 ⟨hleft.named, hright.named⟩)
    rw [List.append_assoc, hleft.append _ rfl, List.cons_append, dateParts_cons (by simp),
      hright.append rest hrest, List.append_assoc]

/-! ## Renaming variables -/

/-- The token with another name, if it is a variable outside of the system's. -/
def Token.rename (f : String → String) : Token → Token
  | .variable scope name => .variable scope (if isSystemScope scope then name else f name)
  | token => token

/-- The identifiers of renamed variables. -/
def identOf (f : String → String) (name : String) : String :=
  CSharp.variableIdent (f name)

theorem Token.rename_eq_comma_iff (f : String → String) (token : Token) :
    token.rename f = .comma ↔ token = .comma := by
  cases token <;> simp [Token.rename]

theorem dateParts_map_rename (f : String → String) (ts : List Token) :
    dateParts (ts.map (Token.rename f)) = (dateParts ts).map (List.map (Token.rename f)) := by
  have hcomma : (fun token : Token => token != .comma) ∘ Token.rename f = (· != .comma) := by
    funext token
    rw [Function.comp_apply, Bool.eq_iff_iff, bne_iff_ne, bne_iff_ne, ne_eq, ne_eq,
      Token.rename_eq_comma_iff]
  fun_induction dateParts ts with
  | case1 => rfl
  | case2 word ts hname ih =>
    simp [dateParts, Token.rename, hname, List.takeWhile_map, hcomma, ih]
  | case3 word ts hname ih => simp [dateParts, Token.rename, hname, ih]
  | case4 token ts hcall ih =>
    rw [List.map_cons, ← ih]
    cases token with
    | word word =>
      refine dateParts_word word ?_
      cases ts with
      | nil => simp
      | cons next ts =>
        cases next with
        | openParen => exact absurd rfl fun h => hcall word ts h rfl
        | _ => simp [Token.rename]
    | _ => rfl

theorem NumeralsBegin.rename {ts : List Token} (h : NumeralsBegin ts) (f : String → String) :
    NumeralsBegin (ts.map (Token.rename f)) := by
  intro literal hmem
  obtain ⟨token, htoken, heq⟩ := List.mem_map.1 hmem
  cases token with
  | number numeral =>
    cases heq
    exact h _ htoken
  | _ => cases heq

theorem map_argumentTokens (f : String → String) (args : List (List Token)) :
    ([Token.comma].intercalate args).map (Token.rename f) =
      [Token.comma].intercalate (args.map (List.map (Token.rename f))) := by
  induction args with
  | nil => rfl
  | cons arg args ih =>
    cases args with
    | nil => simp
    | cons next args =>
      rw [List.map_cons, List.map_cons, List.intercalate_cons_cons, List.intercalate_cons_cons,
        ← List.map_cons, ← ih]
      simp [Token.rename]

/-- Every part is a single literal. -/
def AllLiterals (parts : List (List Token)) : Prop :=
  ∀ part ∈ parts, ∃ literal, part = [.string literal]

theorem AllLiterals.mono {parts all : List (List Token)} (h : AllLiterals all) (hsub : parts ⊆ all) :
    AllLiterals parts :=
  fun part hpart => h part (hsub hpart)

theorem subset_callParts {word : String} {args : List (List Token × String)}
    {arg : List Token × String} (harg : arg ∈ args) : dateParts arg.1 ⊆ callParts word args :=
  fun _ hpart => List.mem_append_right _ (List.mem_flatMap.2 ⟨arg, harg, hpart⟩)

section Call

variable {s : Surroundings} {word code : String} {args : List (List Token × String)}

/-- The form of a call stays if variables outside of its part are renamed. -/
theorem callForm?_rename (hargs : ∀ arg ∈ args, Derives s .sequence arg.1 arg.2)
    (hnumerals : ∀ arg ∈ args, NumeralsBegin arg.1)
    (h : functionCode (Text.upper word) (args.map (·.2)) = .ok code)
    (hliterals : AllLiterals (callParts word args))
    {f : String → String} {form : List Token × String → Form String}
    (hform : ∀ arg ∈ args,
      Derives s .sequence (arg.1.map (Token.rename f)) ((form arg).fill (identOf f))) :
    callForm? (Text.upper word) (firstPart? (args.map fun arg => (form arg).fill (identOf f))) =
      callForm? (Text.upper word) (firstPart? (args.map (·.2))) := by
  by_cases hname : Text.upper word ∈ dateFunctions
  · obtain ⟨token, next, others, first, rfl, -⟩ := exists_first_part hargs hnumerals h hname
    obtain ⟨literal, hliteral⟩ := hliterals [token] (by simp [callParts, hname])
    obtain rfl : token = .string literal := by simpa using hliteral
    have hsame := (hform _ List.mem_cons_self).unique (hargs _ List.mem_cons_self)
    simp only [List.map_cons, firstPart?_cons, hsame]
  · exact callForm?_of_not_date hname _ _

theorem exists_form_call (hargs : ∀ arg ∈ args, Derives s .sequence arg.1 arg.2)
    (hnumerals : ∀ arg ∈ args, NumeralsBegin arg.1)
    (h : functionCode (Text.upper word) (args.map (·.2)) = .ok code)
    (hliterals : AllLiterals (callParts word args))
    (hforms : ∀ arg ∈ args, ∃ t : Form String, ∀ f,
      Derives s .sequence (arg.1.map (Token.rename f)) (t.fill (identOf f))) :
    ∃ t : Form String, ∀ f, Derives s .operand
      (.word word :: .openParen :: ([Token.comma].intercalate
        (args.map fun arg => arg.1.map (Token.rename f)) ++ [.closeParen])) (t.fill (identOf f)) := by
  choose! form hform using hforms
  obtain ⟨c, hc, hlength, -⟩ := (functionCode_eq_ok_iff _ _ _).1 h
  refine ⟨c.code.bind fun i => (args.map form).getD i [], fun f => ?_⟩
  have hrename := callForm?_rename hargs hnumerals h hliterals fun arg harg => hform arg harg f
  have hcode := (functionCode_eq_ok_iff _ _ _).2
    ⟨c, hrename.trans hc, by simpa using hlength, rfl⟩
  have hfill : (fun i => Form.fill (identOf f) ((args.map form).getD i [])) =
      fun i => (args.map fun arg => (form arg).fill (identOf f)).getD i "" := by
    funext i
    have hmap := List.getD_map (l := args.map form) (d := []) (n := i) (Form.fill (identOf f))
    rw [List.map_map] at hmap
    exact hmap.symm
  rw [Form.fill_bind, hfill]
  have hcall := @Derives.call s word _
    (args.map fun arg => (arg.1.map (Token.rename f), (form arg).fill (identOf f)))
    (List.forall_mem_map.2 fun arg harg => hform arg harg f)
    (by simpa only [List.map_map, Function.comp_def] using hcode)
  simpa only [List.map_map, Function.comp_def] using hcall

end Call

/-- Tokens whose parts of dates are all literals have code under all names of their variables, the same
up to the identifiers. -/
theorem Derives.exists_form {s : Surroundings} {phrase : Phrase} {ts : List Token} {code : String}
    (h : Derives s phrase ts code) (hnumerals : NumeralsBegin ts)
    (hliterals : AllLiterals (dateParts ts)) :
    ∃ t : Form String, ∀ f, Derives s phrase (ts.map (Token.rename f)) (t.fill (identOf f)) := by
  induction h with
  | @userVariable scope name h =>
    refine ⟨[.hole name], fun f => ?_⟩
    simpa [Token.rename, h, Form.fill, identOf] using Derives.userVariable (f name) h
  | @systemVariable scope name code h hcode =>
    refine ⟨[.text code], fun f => ?_⟩
    simpa [Token.rename, h, Form.fill] using Derives.systemVariable h hcode
  | string literal =>
    refine ⟨[.text literal], fun f => ?_⟩
    simpa [Token.rename, Form.fill] using Derives.string literal
  | number literal =>
    refine ⟨[.text literal], fun f => ?_⟩
    simpa [Token.rename, Form.fill] using Derives.number literal
  | @unary op ts code h hx ih =>
    rw [dateParts_cons (by simp)] at hliterals
    obtain ⟨t, ht⟩ := ih (hnumerals.mono (List.subset_cons_self _ _)) hliterals
    exact ⟨.text op.symbol :: t, fun f => .unary h (ht f)⟩
  | @group ts code hx ih =>
    have hinner := hnumerals.mono (List.subset_cons_of_subset _ (List.subset_append_left _ _))
    rw [dateParts_cons (by simp), (hx.partsRead hinner).append _ rfl] at hliterals
    obtain ⟨t, ht⟩ := ih hinner (hliterals.mono (List.subset_append_left _ _))
    refine ⟨.text "(" :: t ++ [.text ")"], fun f => ?_⟩
    simpa [Token.rename, Form.fill, Form.fill_append, paren, String.append_assoc] using
      Derives.group (ht f)
  | @cast type ts code out hx h ih =>
    rw [dateParts_cons (by simp)] at hliterals
    obtain ⟨t, ht⟩ := ih (hnumerals.mono (List.subset_cons_self _ _)) hliterals
    obtain ⟨c, hc, -⟩ := (castCode_eq_ok_iff _ _ _).1 h
    refine ⟨c.bind fun _ => t, fun f => ?_⟩
    rw [Form.fill_bind]
    exact .cast (ht f) ((castCode_eq_ok_iff _ _ _).2 ⟨c, hc, rfl⟩)
  | trueWord h => exact ⟨[.text "true"], fun f => .trueWord h⟩
  | falseWord h => exact ⟨[.text "false"], fun f => .falseWord h⟩
  | nullWord type h => exact ⟨[.text "null"], fun f => .nullWord type h⟩
  | @call word code args hargs h ih =>
    have hinner := fun arg harg => hnumerals.mono (@subset_callTokens word args arg harg)
    have hread := fun arg harg => (hargs arg harg).partsRead (hinner arg harg)
    rw [dateParts_call hargs hinner h hread [], dateParts, List.append_nil] at hliterals
    obtain ⟨t, ht⟩ := exists_form_call hargs hinner h hliterals fun arg harg =>
      ih arg harg (hinner arg harg) (hliterals.mono (subset_callParts harg))
    refine ⟨t, fun f => ?_⟩
    simpa [Token.rename, map_argumentTokens, Function.comp_def] using ht f
  | single hx ih =>
    obtain ⟨t, ht⟩ := ih hnumerals hliterals
    exact ⟨t, fun f => .single (ht f)⟩
  | @join ts us code next op hx hy ihx ihy =>
    have hleft := hnumerals.mono (List.subset_append_left _ _)
    have hright := hnumerals.mono
      (List.subset_append_of_subset_right _ (List.subset_cons_self _ _))
    rw [(hx.partsRead hleft).append _ rfl, dateParts_cons (by simp)] at hliterals
    obtain ⟨t, ht⟩ := ihx hleft (hliterals.mono (List.subset_append_left _ _))
    obtain ⟨u, hu⟩ := ihy hright (hliterals.mono (List.subset_append_right _ _))
    refine ⟨t ++ .text " " :: .text op.symbol :: .text " " :: u, fun f => ?_⟩
    simpa [Token.rename, Form.fill, Form.fill_append, String.append_assoc] using
      Derives.join op (ht f) (hu f)

/-- Under the name `x` no variable names a part. -/
theorem exists_literal_of_rename {token : Token} (h : token.namesPart = true)
    (hx : (token.rename fun _ => "x").namesPart = true) : ∃ literal, token = .string literal := by
  cases token with
  | string literal => exact ⟨literal, rfl⟩
  | «variable» scope name =>
    simp only [Token.namesPart, Bool.and_eq_true, Bool.not_eq_true'] at h
    simp only [Token.rename, Token.namesPart, h.1, Bool.false_eq_true, if_false,
      Bool.and_eq_true] at hx
    exact absurd hx.2 (by decide +kernel)
  | _ => cases h

/-! ## Compiled expressions -/

/-- In a compiled expression the first argument of every function of dates is a single token that names
a part: a literal, or a variable outside of the system's. Exactly if all of them are literals is the
expression accepted whatever its variables are called, and then the code differs in identifiers only. -/
theorem dateParts_compile (t : Tree) (id : NodeId) (expression code : String)
    (h : compile (.ofNode t id) expression = .ok code) :
    ∃ ts, scan expression = .ok ts ∧
      (∀ part ∈ dateParts ts, ∃ token, part = [token] ∧ token.namesPart = true) ∧
      (AllLiterals (dateParts ts) ↔
        ∀ f, ∃ out, codeOfTokens (.ofNode t id) (ts.map (Token.rename f)) = .ok out) ∧
      (AllLiterals (dateParts ts) →
        ∃ form : Form String, ∀ f,
          codeOfTokens (.ofNode t id) (ts.map (Token.rename f)) = .ok (form.fill (identOf f))) := by
  obtain ⟨ts, hscan, hd⟩ := (compile_eq_ok_iff _ expression code).1 h
  have hnumerals := numeralsBegin_of_scan hscan
  have hnamed := (hd.partsRead hnumerals).named
  have hform : AllLiterals (dateParts ts) →
      ∃ form : Form String, ∀ f,
        codeOfTokens (.ofNode t id) (ts.map (Token.rename f)) = .ok (form.fill (identOf f)) := by
    intro hliterals
    obtain ⟨form, hform⟩ := hd.exists_form hnumerals hliterals
    exact ⟨form, fun f => (codeOfTokens_eq_ok_iff _ _ _).2 (hform f)⟩
  refine ⟨ts, hscan, hnamed, ⟨fun hliterals f => ?_, fun haccepted part hpart => ?_⟩, hform⟩
  · obtain ⟨form, hform⟩ := hform hliterals
    exact ⟨_, hform f⟩
  · -- a name that is no part's tells literals and variables apart
    obtain ⟨token, rfl, hnames⟩ := hnamed part hpart
    obtain ⟨out, hout⟩ := haccepted fun _ => "x"
    have hrenamed := (((codeOfTokens_eq_ok_iff _ _ _).1 hout).partsRead (hnumerals.rename _)).named
    rw [dateParts_map_rename] at hrenamed
    obtain ⟨other, hother, hnamesOther⟩ := hrenamed _ (List.mem_map_of_mem hpart)
    obtain rfl : token.rename (fun _ => "x") = other := by simpa using hother
    obtain ⟨literal, rfl⟩ := exists_literal_of_rename hnames hnamesOther
    exact ⟨literal, rfl⟩

/-- A literal names the part, and variables the rest. -/
theorem dateParts_compile_literal :
    compile (.ofNode identifiedTree 0) "DATEADD(\"day\", @n, @when)" = .ok "(when).AddDays(n)" ∧
      ∃ ts, scan "DATEADD(\"day\", @n, @when)" = .ok ts ∧ dateParts ts = [[.string "\"day\""]] ∧
        ∃ form : Form String, ∀ f, codeOfTokens (.ofNode identifiedTree 0) (ts.map (Token.rename f)) =
          .ok (form.fill (identOf f)) := by
  have h : compile (.ofNode identifiedTree 0) "DATEADD(\"day\", @n, @when)" =
      .ok "(when).AddDays(n)" := eq_ok_of_toOption (by decide +kernel)
  obtain ⟨ts, hscan, -, -, hform⟩ := dateParts_compile identifiedTree 0 _ _ h
  have hparts : (scan "DATEADD(\"day\", @n, @when)").toOption.map dateParts =
      some [[.string "\"day\""]] := by decide +kernel
  rw [hscan, toOption_ok, Option.map_some, Option.some.injEq] at hparts
  exact ⟨h, ts, hscan, hparts, hform (by simp [AllLiterals, hparts])⟩

/-- A variable names the part; under another name the expression is refused. -/
theorem dateParts_compile_variable :
    compile (.ofNode identifiedTree 0) "DATEADD(@day, 1, GETDATE())" =
        .ok "(DateTime.Now).AddDays(1)" ∧
      (compile (.ofNode identifiedTree 0) "DATEADD(@other, 1, GETDATE())").toOption = none ∧
      (scan "DATEADD(@day, 1, GETDATE())").toOption.map dateParts =
        some [[.variable none "day"]] :=
  ⟨eq_ok_of_toOption (by decide +kernel), by decide +kernel, by decide +kernel⟩

end SsisCompiler.Expression
