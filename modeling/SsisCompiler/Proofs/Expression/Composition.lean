import Mathlib.Data.List.TakeWhile
import SsisCompiler.Proofs.Expression.Grammar
import SsisCompiler.Proofs.Expression.Tokens
import SsisCompiler.Proofs.Text.Pieces

/-!
# Expressions made of expressions

Compiled expressions may be put in parentheses, joined by an operator or handed to a function, in the
text as well as in the code. A parenthesis with a type behind it is a cast, so this rests on that no
compiled expression begins as a type does: its first token would be a word that has no code.

Results:
* `startsType_of_compile`: no compiled expression begins as a type does.
* `scan_group`, `scan_joined`, `scan_call`: the tokens of the composed texts.
* `Derives.append`: two sequences with an operator between them are a sequence.
* `codeOfTokens_call`: a call is compiled exactly if its function has code for the arguments.
* `compile_composed`: the code of a composed expression is composed of the codes of its parts.
-/

namespace SsisCompiler.Expression

open Package (NodeId Tree)
open Text (isBlank)

/-! ## Words -/

/-- Whether a text is a single word. -/
def isWord (text : String) : Bool :=
  match text.toList with
  | [] => false
  | c :: cs => isWordStart c && cs.all isWordChar

theorem isBlank_of_isWordStart {c : Char} (h : isWordStart c = true) : isBlank c = false := by
  rw [← Bool.not_eq_true]
  intro hblank
  have hnot := Text.of_isBlank (p := (!isWordStart ·)) (by decide +kernel) hblank
  rw [h] at hnot
  cases hnot

theorem isDigit_of_isWordStart {c : Char} (h : isWordStart c = true) : c.isDigit = false := by
  rw [← Bool.not_eq_true]
  intro hdigit
  have hnot := Text.of_isDigit (p := (!isWordStart ·)) (by decide +kernel) hdigit
  rw [h] at hnot
  cases hnot

theorem readToken_of_isWordStart {c : Char} (h : isWordStart c = true) (cs : List Char) :
    readToken c cs = .ok (.word (String.ofList (c :: cs.takeWhile isWordChar)),
      (cs.takeWhile isWordChar).length + 1) := by
  have hother : ∀ d, isWordStart d = false → (c == d) = false := by
    intro d hd
    rw [beq_eq_false_iff_ne]
    rintro rfl
    rw [h] at hd
    cases hd
  unfold readToken
  rw [hother '@' (by decide), hother '"' (by decide), hother '.' (by decide),
    isDigit_of_isWordStart h, h]
  rfl

/-! ## Single steps of scanning -/

theorem scanFrom_of_readToken {c : Char} {cs : List Char} {token : Token} {n : Nat}
    (hblank : isBlank c = false) (h : readToken c cs = .ok (token, n)) :
    scanFrom 0 (c :: cs) = (scanFrom 0 (cs.drop (n - 1))).map (token :: ·) := by
  rw [← scanFrom_eq_drop]
  simp only [scanFrom, hblank, h]
  cases scanFrom (n - 1) cs <;> rfl

theorem scanFrom_dropWhile (cs : List Char) :
    scanFrom 0 cs = scanFrom 0 (cs.dropWhile isBlank) := by
  induction cs with
  | nil => rfl
  | cons c cs ih =>
    cases hblank : isBlank c with
    | true => simpa [scanFrom, hblank] using ih
    | false => simp [hblank]

theorem scanFrom_word {c : Char} {cs : List Char} (hc : isWordStart c = true)
    (hcs : cs.all isWordChar = true) {rest : List Char} (hrest : ∀ d ∈ rest.head?, isWordChar d = false) :
    scanFrom 0 (c :: (cs ++ rest)) =
      (scanFrom 0 rest).map (.word (String.ofList (c :: cs)) :: ·) := by
  have hrun : (cs ++ rest).takeWhile isWordChar = cs := by
    rw [takeWhile_append_of_head hrest, List.takeWhile_eq_self_iff]
    exact List.all_eq_true.1 hcs
  rw [scanFrom_of_readToken (isBlank_of_isWordStart hc) (readToken_of_isWordStart hc _), hrun,
    Nat.add_sub_cancel, List.drop_left]

theorem scanFrom_openParen {cs : List Char} (h : startsType (cs.dropWhile isBlank) = false) :
    scanFrom 0 ('(' :: cs) = (scanFrom 0 cs).map (.openParen :: ·) := by
  refine scanFrom_of_readToken (n := 1) (by decide) ?_
  have hword : isWordStart '(' = false := by decide
  simp [readToken, hword, startsDigit, readParen, h]

theorem scanFrom_comma (cs : List Char) :
    scanFrom 0 (',' :: cs) = (scanFrom 0 cs).map (.comma :: ·) := by
  refine scanFrom_of_readToken (n := 1) (by decide) ?_
  have hword : isWordStart ',' = false := by decide
  simp [readToken, hword, startsDigit]

/-- Every operator is read whole where a space stands behind it. -/
theorem readToken_symbol (op : Operator) (cs : List Char) :
    ∃ c symbol, op.symbol.toList = c :: symbol ∧ isBlank c = false ∧ c.toLower ≠ 'd' ∧
      readToken c (symbol ++ ' ' :: cs) = .ok (.operator op, symbol.length + 1) := by
  cases op <;> exact ⟨_, _, rfl, by decide, by decide, rfl⟩

theorem scanFrom_symbol (op : Operator) (cs : List Char) :
    scanFrom 0 (op.symbol.toList ++ ' ' :: cs) = (scanFrom 0 cs).map (.operator op :: ·) := by
  obtain ⟨c, symbol, hsymbol, hblank, -, hread⟩ := readToken_symbol op cs
  rw [hsymbol, List.cons_append, scanFrom_of_readToken hblank hread, Nat.add_sub_cancel,
    List.drop_left]
  rfl

/-! ## No compiled expression begins as a type does -/

/-- The words that a phrase may begin with. -/
theorem Derives.upper_mem_of_head {s : Surroundings} {phrase : Phrase} {ts : List Token}
    {code : String} (h : Derives s phrase ts code) {word : String}
    (hword : ts.head? = some (.word word)) :
    Text.upper word ∈ "TRUE" :: "FALSE" :: "NULL" :: functionNames := by
  induction h with
  | trueWord h | falseWord h | nullWord _ h =>
    cases hword
    simp [h]
  | call args hargs h =>
    cases hword
    simp [mem_functionNames h]
  | single hx ih => exact ih hword
  | @join ts us code next op hx hy ih =>
    refine ih ?_
    rwa [List.head?_append_of_ne_nil _ (List.ne_nil_of_length_pos hx.length_pos)] at hword
  | _ => cases hword

theorem eq_or_of_toLower {c d : Char} (h : c.toLower = d) :
    c = d ∨ c = Char.ofNat (d.toNat - 32) := by
  unfold Char.toLower at h
  split at h
  · rename_i hupper
    right
    have hle : c.toNat ≤ 90 := UInt32.le_iff_toNat_le.1 hupper.2
    have hd : d.toNat = c.toNat + 32 := by
      rw [← h]
      show (c.val + 32).toNat = c.val.toNat + 32
      rw [UInt32.toNat_add]
      show (c.toNat + 32) % 2 ^ 32 = c.toNat + 32
      omega
    rw [hd, Nat.add_sub_cancel, Char.ofNat_toNat]
  · exact Or.inl h

/-- What begins as a type does begins with a word that does. -/
theorem head?_of_startsType {cs : List Char} (h : startsType cs = true) {ts : List Token}
    (hscan : scanFrom 0 cs = .ok ts) :
    ∃ word, ts.head? = some (.word word) ∧ ['D', 'T'] <+: (Text.upper word).toList := by
  obtain ⟨a, b, c, rest, rfl, ha, hb, -⟩ := (startsType_eq_true_iff cs).1 h
  have hstart : isWordStart a = true ∧ a.toUpper = 'D' := by
    rcases eq_or_of_toLower ha with rfl | rfl <;> decide
  have hnext : isWordChar b = true ∧ b.toUpper = 'T' := by
    rcases eq_or_of_toLower hb with rfl | rfl <;> decide
  rw [scanFrom_of_readToken (isBlank_of_isWordStart hstart.1) (readToken_of_isWordStart hstart.1 _)]
    at hscan
  cases hothers : scanFrom 0 ((b :: c :: rest).drop
      (((b :: c :: rest).takeWhile isWordChar).length + 1 - 1)) with
  | error e =>
    rw [hothers] at hscan
    cases hscan
  | ok others =>
    rw [hothers] at hscan
    cases hscan
    refine ⟨_, rfl, ?_⟩
    simp [Text.upper, hnext, hstart, List.takeWhile_cons]

theorem startsType_of_compile {s : Surroundings} {expression code : String}
    (h : compile s expression = .ok code) :
    startsType (expression.toList.dropWhile isBlank) = false := by
  obtain ⟨ts, hscan, hd⟩ := (compile_eq_ok_iff s expression code).1 h
  have hnames : ∀ name ∈ "TRUE" :: "FALSE" :: "NULL" :: functionNames,
      ¬ ['D', 'T'] <+: name.toList := by decide
  rw [scan, scanFrom_dropWhile] at hscan
  rw [← Bool.not_eq_true]
  intro htype
  obtain ⟨word, hhead, hword⟩ := head?_of_startsType htype hscan
  exact hnames _ (hd.upper_mem_of_head hhead) hword

/-! ## Parentheses -/

theorem startsType_cons_of_ne {c : Char} (h : c.toLower ≠ 'd') (cs : List Char) :
    startsType (c :: cs) = false := by
  rw [← Bool.not_eq_true]
  intro htype
  obtain ⟨a, b, d, rest, heq, ha, -⟩ := (startsType_eq_true_iff _).1 htype
  rw [List.cons.inj heq |>.1] at h
  exact h ha

theorem separates_of_head {c : Char} (h : c = ')' ∨ c = ',') (cs : List Char) :
    Separates (c :: cs) := by
  refine ⟨fun d hd => ?_, ?_⟩
  · cases hd
    exact Or.inr h
  · have hblank : isBlank c = false ∧ c.toLower ≠ 'd' := by
      rcases h with rfl | rfl <;> decide
    rw [List.dropWhile_cons_of_neg (by simp [hblank.1])]
    exact startsType_cons_of_ne hblank.2 cs

theorem scan_group {expression : String} {ts : List Token}
    (htype : startsType (expression.toList.dropWhile isBlank) = false)
    (h : scan expression = .ok ts) :
    scan ("(" ++ expression ++ ")") = .ok (.openParen :: (ts ++ [.closeParen])) := by
  have hclose : Separates [')'] := separates_of_head (Or.inl rfl) []
  have hinner : startsType ((expression.toList ++ [')']).dropWhile isBlank) = false := by
    rw [startsType_dropWhile_append hclose, htype]
  have hothers : scanFrom 0 (expression.toList ++ [')']) = .ok (ts ++ [.closeParen]) :=
    scanFrom_append hclose (Nat.zero_le _) h
  have htext : ("(" ++ expression ++ ")").toList = '(' :: (expression.toList ++ [')']) := by simp
  rw [scan, htext, scanFrom_openParen hinner, hothers]
  rfl

/-! ## Operators -/

/-- Two sequences with an operator between them are a sequence, although the rules put one operand at a
time behind the first. -/
theorem Derives.append {s : Surroundings} {ts us : List Token} {code next : String}
    (hx : Derives s .sequence ts code) (op : Operator) (hy : Derives s .sequence us next) :
    Derives s .sequence (ts ++ .operator op :: us) (code ++ " " ++ op.symbol ++ " " ++ next) := by
  generalize hphrase : Phrase.sequence = phrase at hy
  induction hy with
  | single hy => exact .join op hx hy
  | @join us vs code' next op' hy hz ih =>
    have hjoined := Derives.join op' (ih rfl) hz
    simpa [String.append_assoc] using hjoined
  | _ => cases hphrase

theorem scan_joined {left right : String} {ts us : List Token} (op : Operator)
    (hleft : scan left = .ok ts) (hright : scan right = .ok us) :
    scan (left ++ " " ++ op.symbol ++ " " ++ right) = .ok (ts ++ .operator op :: us) := by
  have hsep : Separates (' ' :: (op.symbol.toList ++ ' ' :: right.toList)) := by
    obtain ⟨c, symbol, hsymbol, hblank, hlower, -⟩ := readToken_symbol op right.toList
    refine ⟨fun d hd => Or.inl (Option.mem_some.1 hd).symm, ?_⟩
    rw [List.dropWhile_cons_of_pos (by decide), hsymbol, List.cons_append,
      List.dropWhile_cons_of_neg (by simp [hblank])]
    exact startsType_cons_of_ne hlower _
  have hothers : scanFrom 0 (' ' :: (op.symbol.toList ++ ' ' :: right.toList)) =
      .ok (.operator op :: us) := by
    rw [scanFrom_dropWhile, List.dropWhile_cons_of_pos (by decide), ← scanFrom_dropWhile,
      scanFrom_symbol]
    show (scan right).map _ = _
    rw [hright]
    rfl
  have htext : (left ++ " " ++ op.symbol ++ " " ++ right).toList =
      left.toList ++ ' ' :: (op.symbol.toList ++ ' ' :: right.toList) := by simp
  rw [scan, htext, scanFrom_append hsep (Nat.zero_le _) hleft, hothers]
  rfl

/-! ## Calls -/

/-- The tokens of a list of arguments up to the closing parenthesis, and that no cast begins there. -/
theorem scan_arguments {s : Surroundings} {expressions codes : List String}
    (h : List.Forall₂ (fun expression code => compile s expression = .ok code) expressions codes) :
    ∃ args : List (List Token × String), (∀ arg ∈ args, Derives s .sequence arg.1 arg.2) ∧
      args.map (·.2) = codes ∧
      scanFrom 0 ((",".intercalate expressions).toList ++ [')']) =
        .ok ([Token.comma].intercalate (args.map (·.1)) ++ [.closeParen]) ∧
      startsType (((",".intercalate expressions).toList ++ [')']).dropWhile isBlank) = false := by
  induction h with
  | nil => exact ⟨[], by simp, rfl, rfl, by decide⟩
  | @cons expression code expressions codes hfirst hothers ih =>
    obtain ⟨ts, hscan, hd⟩ := (compile_eq_ok_iff s expression code).1 hfirst
    obtain ⟨args, hargs, hcodes, hrest, -⟩ := ih
    -- what stands behind the first argument begins with a parenthesis or a comma
    have hbehind : ∃ rest us, Separates rest ∧ scanFrom 0 rest = .ok us ∧
        (",".intercalate (expression :: expressions)).toList ++ [')'] = expression.toList ++ rest ∧
        [Token.comma].intercalate (((ts, code) :: args).map (·.1)) ++ [.closeParen] = ts ++ us := by
      cases hothers with
      | nil =>
        obtain rfl := List.map_eq_nil_iff.1 hcodes
        exact ⟨[')'], [.closeParen], separates_of_head (Or.inl rfl) [], rfl, by simp, by simp⟩
      | @cons next _ others _ _ _ =>
        obtain ⟨arg, args, rfl⟩ := List.exists_cons_of_ne_nil (l := args) (by rintro rfl; cases hcodes)
        refine ⟨',' :: ((",".intercalate (next :: others)).toList ++ [')']),
          .comma :: ([Token.comma].intercalate ((arg :: args).map (·.1)) ++ [.closeParen]),
          separates_of_head (Or.inr rfl) _, ?_, ?_, ?_⟩
        · rw [scanFrom_comma, hrest]
          rfl
        · simp [String.intercalate_cons_cons]
        · rw [argumentTokens_cons, List.append_assoc, List.cons_append]
    obtain ⟨rest, us, hsep, hus, htext, htokens⟩ := hbehind
    refine ⟨(ts, code) :: args, List.forall_mem_cons.2 ⟨hd, hargs⟩, by simp [hcodes], ?_, ?_⟩
    · rw [htext, htokens, scanFrom_append hsep (Nat.zero_le _) hscan, hus]
      rfl
    · rw [htext, startsType_dropWhile_append hsep, startsType_of_compile hfirst]

theorem scan_call {word : String} (hword : isWord word = true) {cs : List Char} {ts : List Token}
    (htype : startsType ((cs ++ [')']).dropWhile isBlank) = false)
    (h : scanFrom 0 (cs ++ [')']) = .ok ts) :
    scanFrom 0 (word.toList ++ '(' :: (cs ++ [')'])) = .ok (.word word :: .openParen :: ts) := by
  unfold isWord at hword
  split at hword
  · cases hword
  · rename_i c letters heq
    obtain ⟨hc, hletters⟩ := (Bool.and_eq_true _ _).mp hword
    have hname : String.ofList (c :: letters) = word := by rw [← heq, String.ofList_toList]
    have hparen : ∀ d ∈ ('(' :: (cs ++ [')'])).head?, isWordChar d = false := by
      intro d hd
      cases hd
      decide
    rw [heq, List.cons_append, scanFrom_word hc hletters hparen, scanFrom_openParen htype, h, hname]
    rfl

/-- What is read of a word with arguments. A truth value takes no arguments: what stands behind it is
left. -/
theorem sequence_call {s : Surroundings} {word : String} {depth : Nat} {ts : List Token}
    {codes : List String} (h : arguments s depth ts = .ok (codes, [])) {code : String}
    {rest : List Token}
    (hread : sequence s (depth + 2) (.word word :: .openParen :: ts) = .ok (code, rest)) :
    functionCode (Text.upper word) codes = .ok code := by
  have hend : atEnd (.word word :: .openParen :: ts) = false := rfl
  rw [sequence_succ, hend, if_neg Bool.false_ne_true] at hread
  by_cases htrue : Text.upper word = "TRUE"
  · simp only [operand_word, htrue] at hread
    cases hread
  by_cases hfalse : Text.upper word = "FALSE"
  · simp only [operand_word, hfalse] at hread
    cases hread
  rw [operand_call htrue hfalse h] at hread
  cases hcode : functionCode (Text.upper word) codes with
  | error e =>
    rw [hcode] at hread
    cases hread
  | ok out =>
    rw [hcode] at hread
    cases hread
    rfl

/-- A call is compiled exactly if its function has code for the arguments. -/
theorem codeOfTokens_call {s : Surroundings} (word : String) {args : List (List Token × String)}
    (hargs : ∀ arg ∈ args, Derives s .sequence arg.1 arg.2) (code : String) :
    codeOfTokens s (.word word :: .openParen ::
        ([Token.comma].intercalate (args.map (·.1)) ++ [.closeParen])) = .ok code ↔
      functionCode (Text.upper word) (args.map (·.2)) = .ok code := by
  constructor
  · intro h
    unfold codeOfTokens at h
    rw [if_neg (by simp)] at h
    split at h
    · cases h
    · rename_i out hread
      cases h
      refine sequence_call (arguments_eq hargs (fun arg harg => (hargs arg harg).accepted) [] _ ?_) hread
      simp only [List.length_cons, List.length_append]
      omega
    · cases h
  · intro h
    exact (codeOfTokens_eq_ok_iff s _ code).2 (.single (.call args hargs h))

/-! ## Composition -/

/-- The code of a composed expression is composed of the codes of its parts: in parentheses, with any
operator between two of them, and as the arguments of any word, which is compiled exactly if the
function of that name has code for the arguments. -/
theorem compile_composed (t : Tree) (id : NodeId) :
    (∀ expression code, compile (.ofNode t id) expression = .ok code →
      compile (.ofNode t id) ("(" ++ expression ++ ")") = .ok ("(" ++ code ++ ")")) ∧
    (∀ (op : Operator) (left right codeLeft codeRight : String),
      compile (.ofNode t id) left = .ok codeLeft → compile (.ofNode t id) right = .ok codeRight →
      compile (.ofNode t id) (left ++ " " ++ op.symbol ++ " " ++ right) =
        .ok (codeLeft ++ " " ++ op.symbol ++ " " ++ codeRight)) ∧
    (∀ (word : String) (expressions codes : List String), isWord word = true →
      List.Forall₂ (fun expression code => compile (.ofNode t id) expression = .ok code)
        expressions codes →
      ∀ code, compile (.ofNode t id) (word ++ "(" ++ ",".intercalate expressions ++ ")") = .ok code ↔
        functionCode (Text.upper word) codes = .ok code) := by
  refine ⟨?_, ?_, ?_⟩
  · intro expression code h
    obtain ⟨ts, hscan, hd⟩ := (compile_eq_ok_iff _ expression code).1 h
    exact (compile_eq_ok_iff _ _ _).2
      ⟨_, scan_group (startsType_of_compile h) hscan, .single (.group hd)⟩
  · intro op left right codeLeft codeRight hleft hright
    obtain ⟨ts, hts, hx⟩ := (compile_eq_ok_iff _ left codeLeft).1 hleft
    obtain ⟨us, hus, hy⟩ := (compile_eq_ok_iff _ right codeRight).1 hright
    exact (compile_eq_ok_iff _ _ _).2 ⟨_, scan_joined op hts hus, hx.append op hy⟩
  · intro word expressions codes hword h code
    obtain ⟨args, hargs, rfl, hscan, htype⟩ := scan_arguments h
    have htext : (word ++ "(" ++ ",".intercalate expressions ++ ")").toList =
        word.toList ++ '(' :: ((",".intercalate expressions).toList ++ [')']) := by simp
    rw [compile_eq_ok_iff, ← codeOfTokens_call word hargs code, scan, htext,
      scan_call hword htype hscan]
    simp [codeOfTokens_eq_ok_iff]

theorem compile_composed_identifiedTree :
    compile (.ofNode identifiedTree 1) " (DT_I4)@x" = .ok "Convert.ToInt32(x)" ∧
      compile (.ofNode identifiedTree 1) "-2 > LEN(\")\")" = .ok "-2 > (\")\").Length" ∧
      compile (.ofNode identifiedTree 1) ("(" ++ " (DT_I4)@x" ++ ")") =
        .ok ("(" ++ "Convert.ToInt32(x)" ++ ")") ∧
      compile (.ofNode identifiedTree 1) (" (DT_I4)@x" ++ " " ++ "-" ++ " " ++ "-2 > LEN(\")\")") =
        .ok ("Convert.ToInt32(x)" ++ " " ++ "-" ++ " " ++ "-2 > (\")\").Length") ∧
      compile (.ofNode identifiedTree 1)
          ("Power" ++ "(" ++ ",".intercalate [" (DT_I4)@x", "-2 > LEN(\")\")"] ++ ")") =
        .ok "Math.Pow(Convert.ToInt32(x), -2 > (\")\").Length)" := by
  obtain ⟨hgroup, hjoined, hcall⟩ := compile_composed identifiedTree 1
  have hleft : compile (.ofNode identifiedTree 1) " (DT_I4)@x" = .ok "Convert.ToInt32(x)" :=
    eq_ok_of_toOption (by decide +kernel)
  have hright : compile (.ofNode identifiedTree 1) "-2 > LEN(\")\")" = .ok "-2 > (\")\").Length" :=
    eq_ok_of_toOption (by decide +kernel)
  exact ⟨hleft, hright, hgroup _ _ hleft, hjoined .minus _ _ _ _ hleft hright,
    (hcall "Power" _ _ (by decide +kernel) (.cons hleft (.cons hright .nil)) _).2
      (eq_ok_of_toOption (by decide +kernel))⟩

end SsisCompiler.Expression
