import Mathlib.Data.List.Infix
import SsisCompiler.Expression.Lexer

/-!
# Tokens of a text and of what stands behind it

A token is read with the text behind it in view: a word or a numeral goes on as long as it can, an
operator may have a second character, and a parenthesis looks past blanks for a type. What begins with
a space, a closing parenthesis or a comma, and not with a type behind its blanks, ends every token that
stands before it.

Results:
* `readToken_append`: a token is read the same with such a text behind it.
* `scanFrom_append`: the tokens of a text with such a text behind it are those of the two.
* `standsIn_of_scan`: every variable and every literal among the tokens stands in the text.
* `isNumeral_of_scan`: every number among the tokens is a numeral.
-/

namespace SsisCompiler.Expression

open Text (isBlank)

/-- Ends every token that stands before it. -/
structure Separates (rest : List Char) : Prop where
  head : ∀ c ∈ rest.head?, c = ' ' ∨ c = ')' ∨ c = ','
  noType : startsType (rest.dropWhile isBlank) = false

/-- A class of characters that holds none of the three ends at a separator. -/
theorem Separates.head_eq_false {rest : List Char} (h : Separates rest) {p : Char → Bool}
    (hspace : p ' ' = false) (hclose : p ')' = false) (hcomma : p ',' = false) :
    ∀ c ∈ rest.head?, p c = false := by
  intro c hc
  rcases h.head c hc with rfl | rfl | rfl <;> assumption

/-! ## Runs of characters -/

theorem takeWhile_append_of_head {p : Char → Bool} {rest : List Char}
    (h : ∀ c ∈ rest.head?, p c = false) (cs : List Char) :
    (cs ++ rest).takeWhile p = cs.takeWhile p := by
  induction cs with
  | nil =>
    cases rest with
    | nil => rfl
    | cons c rest => simp [h c rfl]
  | cons c cs ih => simp only [List.cons_append, List.takeWhile_cons, ih]

/-- A run that ends inside a text is the same with anything behind the text. -/
theorem takeWhile_append_of_length_ne {p : Char → Bool} {cs : List Char}
    (h : (cs.takeWhile p).length ≠ cs.length) (rest : List Char) :
    (cs ++ rest).takeWhile p = cs.takeWhile p := by
  rw [List.takeWhile_append, if_neg h]

theorem isPrefixOf_append_of_head {piece rest : List Char} (h : ∀ c ∈ rest.head?, c ∉ piece)
    (cs : List Char) : piece.isPrefixOf (cs ++ rest) = piece.isPrefixOf cs := by
  induction cs generalizing piece with
  | nil =>
    cases rest with
    | nil => rfl
    | cons c rest =>
      cases piece with
      | nil => rfl
      | cons d piece =>
        have hne : d ≠ c := by
          intro heq
          exact h c rfl (by simp [heq])
        simp [List.isPrefixOf, hne]
  | cons c cs ih =>
    cases piece with
    | nil => rfl
    | cons d piece =>
      have htail : ∀ c ∈ rest.head?, c ∉ piece :=
        fun c hc hmem => h c hc (List.mem_cons_of_mem _ hmem)
      simp only [List.cons_append, List.isPrefixOf, ih htail]

/-! ## Variables -/

theorem readVariable_of_ne {c : Char} (hc : c ≠ '[') (cs : List Char) :
    readVariable (c :: cs) =
      if ((c :: cs).takeWhile isWordChar).isEmpty then .error .namelessVariable
      else .ok (variableToken ((c :: cs).takeWhile isWordChar),
        ((c :: cs).takeWhile isWordChar).length + 1) := by
  unfold readVariable
  split
  · rename_i heq
    cases heq
    exact absurd rfl hc
  · rfl

theorem readVariable_append {cs rest : List Char} {token : Token} {n : Nat}
    (h : readVariable cs = .ok (token, n)) (hrest : Separates rest) :
    readVariable (cs ++ rest) = .ok (token, n) := by
  cases cs with
  | nil => simp [readVariable] at h
  | cons c cs =>
    by_cases hc : c = '['
    · subst hc
      simp only [readVariable, beq_iff_eq] at h
      split at h
      · cases h
      · rename_i hne
        have hrun := takeWhile_append_of_length_ne hne rest
        have hlen : (cs.takeWhile (· != ']')).length ≠ (cs ++ rest).length := by
          have hle := (List.takeWhile_prefix (l := cs) (· != ']')).length_le
          rw [List.length_append]
          omega
        simp only [List.cons_append, readVariable, hrun, beq_iff_eq, hlen, if_false]
        exact h
    · have hname := takeWhile_append_of_head
        (hrest.head_eq_false (p := isWordChar) (by decide) (by decide) (by decide)) (c :: cs)
      rw [List.cons_append] at hname ⊢
      rw [readVariable_of_ne hc] at h ⊢
      rw [hname]
      exact h

theorem length_readVariable {cs : List Char} {token : Token} {n : Nat}
    (h : readVariable cs = .ok (token, n)) : 0 < n ∧ n ≤ cs.length + 1 := by
  cases cs with
  | nil => simp [readVariable] at h
  | cons c cs =>
    by_cases hc : c = '['
    · subst hc
      simp only [readVariable, beq_iff_eq] at h
      split at h
      · cases h
      · rename_i hne
        cases h
        have hle := (List.takeWhile_prefix (l := cs) (· != ']')).length_le
        rw [List.length_cons]
        omega
    · rw [readVariable_of_ne hc] at h
      split at h
      · cases h
      · cases h
        have hle := (List.takeWhile_prefix (l := c :: cs) isWordChar).length_le
        omega

/-! ## Literals -/

/-- A character that covers none behind it is no backslash. -/
theorem ne_backslash {c : Char} {cs : List Char} (hlast : c = '\\' → cs = [] → False)
    (hescape : ∀ d ds, c = '\\' → cs = d :: ds → False) : c ≠ '\\' := by
  intro hc
  cases cs with
  | nil => exact hlast hc rfl
  | cons d ds => exact hescape d ds hc rfl

theorem stringLength?_append {cs : List Char} {n : Nat} (h : stringLength? cs = some n)
    (rest : List Char) : stringLength? (cs ++ rest) = some n ∧ n ≤ cs.length := by
  fun_induction stringLength? cs generalizing n with
  | case1 => cases h
  | case2 => cases h
  | case3 c cs ih =>
    obtain ⟨m, hm, rfl⟩ := Option.map_eq_some_iff.1 h
    obtain ⟨hread, hle⟩ := ih hm
    refine ⟨by simp [stringLength?, hread], ?_⟩
    simp only [List.length_cons]
    omega
  | case4 c cs hlast hescape hquote =>
    cases h
    have hne : c ≠ '\\' := by
      rw [beq_iff_eq] at hquote
      subst hquote
      decide
    refine ⟨by simp [stringLength?, hne, hquote], by simp⟩
  | case5 c cs hlast hescape hquote ih =>
    obtain ⟨m, hm, rfl⟩ := Option.map_eq_some_iff.1 h
    obtain ⟨hread, hle⟩ := ih hm
    have hne := ne_backslash hlast hescape
    refine ⟨by simp [stringLength?, hne, hquote, hread], ?_⟩
    simp only [List.length_cons]
    omega

theorem readString_append {cs rest : List Char} {token : Token} {n : Nat}
    (h : readString cs = .ok (token, n)) : readString (cs ++ rest) = .ok (token, n) := by
  unfold readString at h ⊢
  cases hlen : stringLength? cs with
  | none => simp [hlen] at h
  | some m =>
    obtain ⟨hread, hle⟩ := stringLength?_append hlen rest
    simp only [hlen, Except.ok.injEq] at h
    simp only [hread, List.take_append_of_le_length hle, h]

theorem length_readString {cs : List Char} {token : Token} {n : Nat}
    (h : readString cs = .ok (token, n)) : 0 < n ∧ n ≤ cs.length + 1 := by
  unfold readString at h
  cases hlen : stringLength? cs with
  | none => simp [hlen] at h
  | some m =>
    have hle := (stringLength?_append hlen []).2
    simp only [hlen] at h
    cases h
    omega

theorem numeralRest_append {rest : List Char} (hrest : Separates rest) (before : Char)
    (cs : List Char) : numeralRest before (cs ++ rest) = numeralRest before cs := by
  induction cs generalizing before with
  | nil =>
    cases rest with
    | nil => rfl
    | cons c rest =>
      rcases hrest.head c rfl with rfl | rfl | rfl <;> rfl
  | cons c cs ih => simp only [List.cons_append, numeralRest, ih]

theorem numeralRest_isPrefix (before : Char) (cs : List Char) : numeralRest before cs <+: cs := by
  induction cs generalizing before with
  | nil => exact List.prefix_rfl
  | cons c cs ih =>
    unfold numeralRest
    split
    · exact List.cons_prefix_cons.2 ⟨rfl, ih c⟩
    · exact List.nil_prefix

theorem readNumber_append (c : Char) (cs : List Char) {rest : List Char} (hrest : Separates rest) :
    readNumber c (cs ++ rest) = readNumber c cs := by
  simp only [readNumber, numeralRest_append hrest]

theorem length_readNumber {c : Char} {cs : List Char} {token : Token} {n : Nat}
    (h : readNumber c cs = .ok (token, n)) : 0 < n ∧ n ≤ cs.length + 1 := by
  unfold readNumber at h
  dsimp only at h
  split at h
  · cases h
    have hle := (numeralRest_isPrefix c cs).length_le
    rw [List.length_cons]
    omega
  · cases h

/-! ## Casts and operators -/

theorem startsType_eq_true_iff (cs : List Char) :
    startsType cs = true ↔ ∃ a b c rest, cs = a :: b :: c :: rest ∧
      a.toLower = 'd' ∧ b.toLower = 't' ∧ c.toLower = '_' := by
  have htype : "DT_".toList.map Char.toLower = ['d', 't', '_'] := by decide
  simp only [startsType, Text.equalIgnoringCase, Text.lower, beq_iff_eq, String.toList_ofList,
    htype, String.ofList_inj]
  constructor
  · intro h
    rcases cs with _ | ⟨a, _ | ⟨b, _ | ⟨c, rest⟩⟩⟩
    · simp at h
    · simp at h
    · simp at h
    · simp only [List.take_succ_cons, List.take_zero, List.map_cons, List.map_nil,
        List.cons.injEq, and_true] at h
      exact ⟨a, b, c, rest, rfl, h⟩
  · rintro ⟨a, b, c, rest, rfl, ha, hb, hc⟩
    simp [ha, hb, hc]

/-- No character of a type's beginning ends a token. -/
theorem Separates.toLower_ne {rest : List Char} (h : Separates rest) {c d : Char}
    (hc : c ∈ rest.head?) (hd : d = 't' ∨ d = '_') : c.toLower ≠ d := by
  rcases h.head c hc with rfl | rfl | rfl <;> rcases hd with rfl | rfl <;> decide

theorem startsType_append {rest : List Char} (hrest : Separates rest) {cs : List Char}
    (hne : cs ≠ []) : startsType (cs ++ rest) = startsType cs := by
  rw [Bool.eq_iff_iff, startsType_eq_true_iff, startsType_eq_true_iff]
  constructor
  · rintro ⟨a, b, c, tail, heq, ha, hb, hc⟩
    rcases cs with _ | ⟨x, _ | ⟨y, _ | ⟨z, more⟩⟩⟩
    · exact absurd rfl hne
    · obtain ⟨-, rfl⟩ := List.cons.inj heq
      exact absurd hb (hrest.toLower_ne rfl (Or.inl rfl))
    · simp only [List.cons_append, List.nil_append, List.cons.injEq] at heq
      obtain ⟨-, -, rfl⟩ := heq
      exact absurd hc (hrest.toLower_ne rfl (Or.inr rfl))
    · simp only [List.cons_append, List.cons.injEq] at heq
      obtain ⟨rfl, rfl, rfl, -⟩ := heq
      exact ⟨x, y, z, more, rfl, ha, hb, hc⟩
  · rintro ⟨a, b, c, tail, rfl, hchars⟩
    exact ⟨a, b, c, tail ++ rest, rfl, hchars⟩

/-- What stands behind a parenthesis and its blanks begins with a type or not, whatever stands behind
it. -/
theorem startsType_dropWhile_append {rest : List Char} (hrest : Separates rest) (cs : List Char) :
    startsType ((cs ++ rest).dropWhile isBlank) = startsType (cs.dropWhile isBlank) := by
  rw [List.dropWhile_append]
  split
  · rename_i hempty
    rw [List.isEmpty_iff.1 hempty, hrest.noType]
    decide
  · rename_i hempty
    exact startsType_append hrest (by simpa using hempty)

theorem readParen_append {cs rest : List Char} {token : Token} {n : Nat}
    (h : readParen cs = .ok (token, n)) (hrest : Separates rest) :
    readParen (cs ++ rest) = .ok (token, n) := by
  have hsame := startsType_dropWhile_append hrest cs
  unfold readParen at h ⊢
  dsimp only at h ⊢
  rw [hsame]
  split at h
  · rename_i htype
    split at h
    · cases h
    · rename_i hne
      rw [if_pos htype]
      -- the blanks and the type both end inside the text
      have hinner : cs.dropWhile isBlank ≠ [] := by
        intro hnil
        rw [hnil] at htype
        cases htype
      have hdrop : (cs ++ rest).dropWhile isBlank = cs.dropWhile isBlank ++ rest := by
        rw [List.dropWhile_append, if_neg (by simpa using hinner)]
      have hblanks : (cs ++ rest).takeWhile isBlank = cs.takeWhile isBlank := by
        refine takeWhile_append_of_length_ne ?_ rest
        have hlen := congrArg List.length (List.takeWhile_append_dropWhile (p := isBlank) (l := cs))
        have hpos := List.length_pos_of_ne_nil hinner
        rw [List.length_append] at hlen
        omega
      rw [beq_iff_eq] at hne
      have hrun := takeWhile_append_of_length_ne hne rest
      have hle := (List.takeWhile_prefix (l := cs.dropWhile isBlank) (· != ')')).length_le
      have hlen : ((cs.dropWhile isBlank).takeWhile (· != ')')).length ≠
          (cs.dropWhile isBlank ++ rest).length := by
        rw [List.length_append]
        omega
      rw [hdrop, hblanks, hrun, if_neg (by simpa using hlen)]
      exact h
  · rename_i htype
    rw [if_neg htype]
    exact h

theorem length_readParen {cs : List Char} {token : Token} {n : Nat}
    (h : readParen cs = .ok (token, n)) : 0 < n ∧ n ≤ cs.length + 1 := by
  unfold readParen at h
  dsimp only at h
  split at h
  · split at h
    · cases h
    · rename_i hne
      cases h
      rw [beq_iff_eq] at hne
      have hle := (List.takeWhile_prefix (l := cs.dropWhile isBlank) (· != ')')).length_le
      have hlen := congrArg List.length (List.takeWhile_append_dropWhile (p := isBlank) (l := cs))
      rw [List.length_append] at hlen
      omega
  · cases h
    omega

theorem readOperator_append (c : Char) (cs : List Char) {rest : List Char}
    (hrest : Separates rest) : readOperator c (cs ++ rest) = readOperator c cs := by
  have hsame : (fun op : Operator => op.symbol.toList.isPrefixOf (c :: (cs ++ rest))) =
      fun op => op.symbol.toList.isPrefixOf (c :: cs) := by
    funext op
    rw [← List.cons_append]
    apply isPrefixOf_append_of_head
    intro d hd
    rcases hrest.head d hd with rfl | rfl | rfl
    · cases op <;> decide
    · cases op <;> decide
    · cases op <;> decide
  simp only [readOperator, hsame]

theorem length_readOperator {c : Char} {cs : List Char} {token : Token} {n : Nat}
    (h : readOperator c cs = .ok (token, n)) : 0 < n ∧ n ≤ cs.length + 1 := by
  unfold readOperator at h
  split at h
  · rename_i op hop
    cases h
    have hsymbol := List.find?_some hop
    have hle := (List.isPrefixOf_iff_prefix.1 hsymbol).length_le
    rw [List.length_cons, String.length_toList] at hle
    refine ⟨?_, hle⟩
    cases op <;> decide
  · cases h

/-! ## Tokens -/

/-- A token is read the same with a text behind it that ends every token. -/
theorem readToken_append {c : Char} {cs rest : List Char} {token : Token} {n : Nat}
    (h : readToken c cs = .ok (token, n)) (hrest : Separates rest) :
    readToken c (cs ++ rest) = .ok (token, n) := by
  have hdigit : startsDigit (cs ++ rest) = startsDigit cs := by
    cases cs with
    | cons d cs => rfl
    | nil =>
      cases rest with
      | nil => rfl
      | cons d rest => exact hrest.head_eq_false (p := Char.isDigit) rfl rfl rfl d rfl
  have hword := takeWhile_append_of_head
    (hrest.head_eq_false (p := isWordChar) (by decide) (by decide) (by decide)) cs
  unfold readToken at h ⊢
  rw [hdigit]
  split_ifs at h ⊢
  · exact readVariable_append h hrest
  · exact readString_append h
  · rw [readNumber_append c cs hrest]
    exact h
  · rw [hword]
    exact h
  · exact readParen_append h hrest
  · exact h
  · exact h
  · rw [readOperator_append c cs hrest]
    exact h

theorem length_readToken {c : Char} {cs : List Char} {token : Token} {n : Nat}
    (h : readToken c cs = .ok (token, n)) : 0 < n ∧ n ≤ cs.length + 1 := by
  unfold readToken at h
  split_ifs at h
  · exact length_readVariable h
  · exact length_readString h
  · exact length_readNumber h
  · cases h
    have hle := (List.takeWhile_prefix (l := cs) isWordChar).length_le
    rw [List.length_cons]
    omega
  · exact length_readParen h
  · cases h
    omega
  · cases h
    omega
  · exact length_readOperator h

/-! ## Texts -/

/-- Behind the characters that the last token covers, scanning begins anew. -/
theorem scanFrom_eq_drop (covered : Nat) (cs : List Char) :
    scanFrom covered cs = scanFrom 0 (cs.drop covered) := by
  induction cs generalizing covered with
  | nil => cases covered <;> rfl
  | cons c cs ih =>
    cases covered with
    | zero => rfl
    | succ covered => exact ih covered

theorem scanFrom_append {rest : List Char} (hrest : Separates rest) {covered : Nat}
    {cs : List Char} {ts : List Token} (hcovered : covered ≤ cs.length)
    (h : scanFrom covered cs = .ok ts) :
    scanFrom covered (cs ++ rest) = (scanFrom 0 rest).map (ts ++ ·) := by
  fun_induction scanFrom covered cs generalizing ts with
  | case1 covered =>
    obtain rfl : covered = 0 := by simpa using hcovered
    cases h
    cases hothers : scanFrom 0 rest <;> simp [hothers, Except.map]
  | case2 covered c cs ih => exact ih (by simpa using hcovered) h
  | case3 c cs hblank ih =>
    simp only [List.cons_append, scanFrom, hblank, if_true]
    exact ih (by omega) h
  | case4 c cs hblank e herror => cases h
  | case5 c cs hblank token n hread e herror ih => cases h
  | case6 c cs hblank token n hread tokens htokens ih =>
    cases h
    obtain ⟨hpos, hle⟩ := length_readToken hread
    have hothers := ih (by omega) htokens
    simp only [List.cons_append, scanFrom, hblank, readToken_append hread hrest, hothers]
    cases scanFrom 0 rest <;> simp [Except.map]

/-- Every token of a text was read at some place in it. -/
theorem exists_readToken_of_mem {covered : Nat} {cs : List Char} {ts : List Token}
    (h : scanFrom covered cs = .ok ts) {token : Token} (hmem : token ∈ ts) :
    ∃ c rest n, c :: rest <:+ cs ∧ readToken c rest = .ok (token, n) := by
  fun_induction scanFrom covered cs generalizing ts with
  | case1 covered =>
    cases h
    cases hmem
  | case2 covered c cs ih =>
    obtain ⟨d, rest, n, hsuffix, hread⟩ := ih h hmem
    exact ⟨d, rest, n, hsuffix.trans (List.suffix_cons c cs), hread⟩
  | case3 c cs hblank ih =>
    obtain ⟨d, rest, n, hsuffix, hread⟩ := ih h hmem
    exact ⟨d, rest, n, hsuffix.trans (List.suffix_cons c cs), hread⟩
  | case4 c cs hblank e herror => cases h
  | case5 c cs hblank token n hread e herror ih => cases h
  | case6 c cs hblank first n hread tokens htokens ih =>
    cases h
    rcases List.mem_cons.1 hmem with rfl | hmem
    · exact ⟨c, cs, n, List.suffix_rfl, hread⟩
    · obtain ⟨d, rest, m, hsuffix, hread⟩ := ih htokens hmem
      exact ⟨d, rest, m, hsuffix.trans (List.suffix_cons c cs), hread⟩

/-! ## Where variables and literals stand -/

/-- Where a token stands in a text, if it carries a piece of it into the code. -/
inductive StandsIn (text : List Char) : Token → Prop
  | «variable» {reference : List Char} (h : reference <:+: text) :
    StandsIn text (variableToken reference)
  | string {cs : List Char} {n : Nat} (h : '"' :: cs <:+ text) (hn : stringLength? cs = some n) :
    StandsIn text (.string (String.ofList ('"' :: cs.take n)))
  | number {c : Char} {cs : List Char} (h : c :: cs <:+ text) (hc : c.isDigit = true ∨ c = '.') :
    StandsIn text (.number (String.ofList (c :: numeralRest c cs)))
  | word (word : String) : StandsIn text (.word word)
  | cast (type : String) : StandsIn text (.cast type)
  | operator (op : Operator) : StandsIn text (.operator op)
  | openParen : StandsIn text .openParen
  | closeParen : StandsIn text .closeParen
  | comma : StandsIn text .comma

theorem standsIn_of_readVariable {text cs : List Char} {token : Token} {n : Nat}
    (hcs : cs <:+ text) (h : readVariable cs = .ok (token, n)) : StandsIn text token := by
  cases cs with
  | nil => simp [readVariable] at h
  | cons c cs =>
    by_cases hc : c = '['
    · subst hc
      simp only [readVariable, beq_iff_eq] at h
      split at h
      · cases h
      · cases h
        have hsuffix := (List.suffix_cons '[' cs).trans hcs
        exact .variable ((List.takeWhile_prefix _).isInfix.trans hsuffix.isInfix)
    · rw [readVariable_of_ne hc] at h
      split at h
      · cases h
      · cases h
        exact .variable ((List.takeWhile_prefix _).isInfix.trans hcs.isInfix)

theorem standsIn_of_readToken {text : List Char} {c : Char} {cs : List Char} {token : Token}
    {n : Nat} (hcs : c :: cs <:+ text) (h : readToken c cs = .ok (token, n)) :
    StandsIn text token := by
  unfold readToken at h
  split_ifs at h with hat hquote hnumber
  · exact standsIn_of_readVariable ((List.suffix_cons c cs).trans hcs) h
  · rw [beq_iff_eq] at hquote
    subst hquote
    unfold readString at h
    split at h
    · rename_i m hm
      cases h
      exact .string hcs hm
    · cases h
  · unfold readNumber at h
    dsimp only at h
    split at h
    · cases h
      refine .number hcs ?_
      simp only [Bool.or_eq_true, Bool.and_eq_true, beq_iff_eq] at hnumber
      exact hnumber.imp id And.left
    · cases h
  · cases h
    exact .word _
  · unfold readParen at h
    dsimp only at h
    split at h
    · split at h
      · cases h
      · cases h
        exact .cast _
    · cases h
      exact .openParen
  · cases h
    exact .closeParen
  · cases h
    exact .comma
  · unfold readOperator at h
    split at h
    · cases h
      exact .operator _
    · cases h

/-- Every token of a text stands in it. -/
theorem standsIn_of_scan {text : String} {ts : List Token} (h : scan text = .ok ts) {token : Token}
    (hmem : token ∈ ts) : StandsIn text.toList token := by
  obtain ⟨c, cs, n, hsuffix, hread⟩ := exists_readToken_of_mem h hmem
  exact standsIn_of_readToken hsuffix hread

theorem variableToken_eq (reference : List Char) :
    ∃ scope name, variableToken reference = .variable scope name := by
  unfold variableToken
  split <;> exact ⟨_, _, rfl⟩

theorem string_of_scan {text literal : String} {ts : List Token} (h : scan text = .ok ts)
    (hmem : .string literal ∈ ts) : ∃ cs n, '"' :: cs <:+ text.toList ∧
      stringLength? cs = some n ∧ literal.toList = '"' :: cs.take n := by
  generalize htoken : Token.string literal = token at hmem
  cases standsIn_of_scan h hmem with
  | @«variable» reference _ =>
    obtain ⟨scope, name, heq⟩ := variableToken_eq reference
    rw [heq] at htoken
    cases htoken
  | string hcs hn =>
    cases htoken
    exact ⟨_, _, hcs, hn, by simp⟩
  | _ => cases htoken

theorem number_of_scan {text literal : String} {ts : List Token} (h : scan text = .ok ts)
    (hmem : .number literal ∈ ts) : ∃ c cs, c :: cs <:+ text.toList ∧
      (c.isDigit = true ∨ c = '.') ∧ literal.toList = c :: numeralRest c cs := by
  generalize htoken : Token.number literal = token at hmem
  cases standsIn_of_scan h hmem with
  | @«variable» reference _ =>
    obtain ⟨scope, name, heq⟩ := variableToken_eq reference
    rw [heq] at htoken
    cases htoken
  | number hcs hc =>
    cases htoken
    exact ⟨_, _, hcs, hc, by simp⟩
  | _ => cases htoken

theorem exists_reference_of_readVariable {cs : List Char} {token : Token} {n : Nat}
    (h : readVariable cs = .ok (token, n)) : ∃ reference, token = variableToken reference := by
  unfold readVariable at h
  split at h
  · dsimp only at h
    split at h
    · cases h
    · cases h
      exact ⟨_, rfl⟩
  · dsimp only at h
    split at h
    · cases h
    · cases h
      exact ⟨_, rfl⟩

/-- Only what was found to be a numeral is a number. -/
theorem isNumeral_of_scan {text literal : String} {ts : List Token} (h : scan text = .ok ts)
    (hmem : .number literal ∈ ts) : isNumeral literal.toList = true := by
  obtain ⟨c, cs, n, -, hread⟩ := exists_readToken_of_mem h hmem
  unfold readToken at hread
  split_ifs at hread
  · obtain ⟨reference, htoken⟩ := exists_reference_of_readVariable hread
    obtain ⟨scope, name, heq⟩ := variableToken_eq reference
    rw [heq] at htoken
    cases htoken
  · unfold readString at hread
    split at hread <;> cases hread
  · unfold readNumber at hread
    dsimp only at hread
    split at hread
    · rename_i hnumeral
      cases hread
      rwa [String.toList_ofList]
    · cases hread
  · cases hread
  · unfold readParen at hread
    dsimp only at hread
    split at hread
    · split at hread <;> cases hread
    · cases hread
  · cases hread
  · cases hread
  · unfold readOperator at hread
    split at hread <;> cases hread

end SsisCompiler.Expression
