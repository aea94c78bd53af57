import SsisCompiler.Proofs.CSharp.SourceLines
import SsisCompiler.Proofs.Expression.Composition
import SsisCompiler.Proofs.Expression.Tokens
import SsisCompiler.Text.Decimal

/-!
# Literals of the generated code

A numeral and a string go into the generated code as they are written. The reader checks a numeral one
character at a time, with no more than the character before in view, and takes a string up to the first
quote that no backslash escapes. A literal of the generated code has more structure: a number has one
fraction, one exponent and one suffix, and a string has no line terminator and no unknown escape.

Results:
* `isNumber_iff`: which numerals are numeric literals. One that is not has a point out of place, a second
  exponent mark, or letters at its end that are no suffix for it.
* `isInside_iff`: which strings are string literals. One that is not holds a line terminator or a
  backslash that begins no escape.
* `literals_of_scan`: both for the tokens of a text.
-/

namespace SsisCompiler.CSharp

/-! ## Numbers and strings of the generated code -/

/-- Whether a text is the fraction of a number: none, or a point and digits. -/
def isFraction : List Char → Bool
  | [] => true
  | c :: cs => c == '.' && Text.isDigits cs

/-- Whether a text is the exponent of a number: none, or a mark, a sign that may be missing, and
digits. -/
def isExponent : List Char → Bool
  | [] => true
  | c :: cs => (c == 'e' || c == 'E') && Text.isDigits (Text.dropSign cs)

/-- Whether a text is the suffix of a number, in any case: none, or `F`, or for an integer one of `U`,
`L`, `UL` and `LU`. -/
def isSuffix (integer : Bool) (cs : List Char) : Bool :=
  [[], ['f']].contains (cs.map Char.toLower) ||
    (integer && [['u'], ['l'], ['u', 'l'], ['l', 'u']].contains (cs.map Char.toLower))

/-- A numeric literal. -/
structure Number where
  whole : List Char
  fraction : List Char
  exponent : List Char
  suffix : List Char
  whole_digits : whole.all Char.isDigit = true
  isFraction_fraction : isFraction fraction = true
  ne_nil : whole ≠ [] ∨ fraction ≠ []
  isExponent_exponent : isExponent exponent = true
  isSuffix_suffix : isSuffix (fraction.isEmpty && exponent.isEmpty) suffix = true

/-- A number without its suffix. -/
def Number.body (n : Number) : List Char :=
  n.whole ++ (n.fraction ++ n.exponent)

/-- Whether a text is a numeric literal. -/
def IsNumber (cs : List Char) : Prop :=
  ∃ n : Number, n.body ++ n.suffix = cs

/-- Whether a character is a hexadecimal digit. -/
def isHexDigit (c : Char) : Bool :=
  c.isDigit || ['a', 'b', 'c', 'd', 'e', 'f'].contains c.toLower

/-- Whether a text is an escape without its backslash: a character that stands for another, or the
hexadecimal digits of a character, which go up to `10FFFF` where there are eight of them. -/
def isEscape : List Char → Bool
  | [] => false
  | c :: digits =>
    digits.all isHexDigit &&
      (['\'', '"', '\\', '0', 'a', 'b', 'f', 'n', 'r', 't', 'v'].contains c && digits.isEmpty ||
        c == 'x' && decide (1 ≤ digits.length ∧ digits.length ≤ 4) ||
        c == 'u' && digits.length == 4 ||
        c == 'U' && digits.length == 8 &&
          (['0', '0', '0'].isPrefixOf digits || ['0', '0', '1', '0'].isPrefixOf digits))

/-- What stands between the quotes of a string literal. -/
inductive IsInside : List Char → Prop
  | nil : IsInside []
  | char {c : Char} {cs : List Char} (hquote : c ≠ '"') (hbackslash : c ≠ '\\')
      (hline : isLineTerminator c = false) (h : IsInside cs) : IsInside (c :: cs)
  | escape {e cs : List Char} (he : isEscape e = true) (h : IsInside cs) :
      IsInside ('\\' :: (e ++ cs))

/-- Whether a text is a string literal. -/
def IsString (cs : List Char) : Prop :=
  ∃ inside, IsInside inside ∧ '"' :: (inside ++ ['"']) = cs

end SsisCompiler.CSharp

namespace SsisCompiler.Expression

open CSharp (IsNumber IsString IsInside isLineTerminator isHexDigit isEscape)

/-! ## The parts of a numeral -/

/-- A numeral without the suffix letters at its end. -/
def numeralBody (cs : List Char) : List Char :=
  Text.dropEndWhile isNumeralSuffix cs

/-- The suffix letters at the end of a numeral. -/
def numeralSuffix (cs : List Char) : List Char :=
  (cs.reverse.takeWhile isNumeralSuffix).reverse

theorem numeralBody_append_numeralSuffix (cs : List Char) :
    numeralBody cs ++ numeralSuffix cs = cs := by
  rw [numeralBody, Text.dropEndWhile, numeralSuffix, ← List.reverse_append,
    List.takeWhile_append_dropWhile, List.reverse_reverse]

/-- A text is cut where the suffix letters at its end begin. -/
theorem numeralBody_append {body suffix : List Char}
    (hbody : ∀ c ∈ body.getLast?, isNumeralSuffix c = false)
    (hsuffix : ∀ c ∈ suffix, isNumeralSuffix c = true) :
    numeralBody (body ++ suffix) = body ∧ numeralSuffix (body ++ suffix) = suffix := by
  have hstop : body.reverse.takeWhile isNumeralSuffix = [] := by
    rw [← List.head?_reverse] at hbody
    cases hrev : body.reverse with
    | nil => rfl
    | cons c cs => simp [hbody c (by simp [hrev])]
  have hcut : numeralSuffix (body ++ suffix) = suffix := by
    rw [numeralSuffix, List.reverse_append,
      List.takeWhile_append_of_pos (by simpa using hsuffix), hstop, List.append_nil,
      List.reverse_reverse]
  have hjoin := numeralBody_append_numeralSuffix (body ++ suffix)
  rw [hcut] at hjoin
  exact ⟨List.append_cancel_right hjoin, hcut⟩

/-- Whether every point has only digits before it and a digit behind it. The first argument says
whether only digits stand before. -/
def pointsPlaced : Bool → List Char → Bool
  | _, [] => true
  | digits, c :: cs =>
    (c != '.' || (digits && startsDigit cs)) && pointsPlaced (digits && c.isDigit) cs

theorem pointsPlaced_append_digits {digits : List Char} (h : digits.all Char.isDigit = true)
    (rest : List Char) : pointsPlaced true (digits ++ rest) = pointsPlaced true rest := by
  induction digits with
  | nil => rfl
  | cons c digits ih =>
    simp only [List.all_cons, Bool.and_eq_true] at h
    have hpoint : c ≠ '.' := by
      rintro rfl
      exact absurd h.1 (by decide)
    simp [pointsPlaced, hpoint, h.1, ih h.2]

theorem pointsPlaced_of_not_mem {cs : List Char} (h : '.' ∉ cs) (digits : Bool) :
    pointsPlaced digits cs = true := by
  induction cs generalizing digits with
  | nil => rfl
  | cons c cs ih =>
    rw [List.mem_cons, not_or] at h
    simp [pointsPlaced, Ne.symm h.1, ih h.2]

theorem not_mem_of_pointsPlaced {cs : List Char} (h : pointsPlaced false cs = true) : '.' ∉ cs := by
  induction cs with
  | nil => exact List.not_mem_nil
  | cons c cs ih =>
    simp only [pointsPlaced, Bool.false_and, Bool.or_false, Bool.and_eq_true, bne_iff_ne] at h
    simp [Ne.symm h.1, ih h.2]

/-! ## Classes of characters -/

theorem isExponentMark_of_isDigit {c : Char} (h : c.isDigit = true) : isExponentMark c = false := by
  rw [← Bool.not_eq_true]
  intro hmark
  simp only [isExponentMark, Bool.or_eq_true, beq_iff_eq] at hmark
  rcases hmark with rfl | rfl <;> exact absurd h (by decide)

theorem isExponentMark_of_isSign {c : Char} (h : isSign c = true) : isExponentMark c = false := by
  simp only [isSign, Bool.or_eq_true, beq_iff_eq] at h
  rcases h with rfl | rfl <;> decide

theorem isNumeralSuffix_of_isDigit {c : Char} (h : c.isDigit = true) :
    isNumeralSuffix c = false := by
  rw [← Bool.not_eq_true]
  intro hsuffix
  simp only [isNumeralSuffix, Bool.or_eq_true, beq_iff_eq] at hsuffix
  rcases hsuffix with ((((rfl | rfl) | rfl) | rfl) | rfl) | rfl <;> exact absurd h (by decide)

theorem isNumeralSuffix_of_toLower {c : Char}
    (h : c.toLower = 'f' ∨ c.toLower = 'u' ∨ c.toLower = 'l') : isNumeralSuffix c = true := by
  rcases h with h | h | h <;> rcases eq_or_of_toLower h with rfl | rfl <;> decide

theorem isNumeralSuffix_of_isSuffix {integer : Bool} {cs : List Char}
    (h : CSharp.isSuffix integer cs = true) : ∀ c ∈ cs, isNumeralSuffix c = true := by
  intro c hc
  apply isNumeralSuffix_of_toLower
  have hlower : c.toLower ∈ cs.map Char.toLower := List.mem_map_of_mem hc
  simp only [CSharp.isSuffix, Bool.or_eq_true, Bool.and_eq_true, List.contains_iff_mem,
    List.mem_cons, List.not_mem_nil, or_false] at h
  rcases h with (h | h) | ⟨-, h | h | h | h⟩ <;> rw [h] at hlower <;> simp at hlower <;> tauto

theorem dropSign_cons (c : Char) (cs : List Char) :
    Text.dropSign (c :: cs) = if isSign c then cs else c :: cs := by
  by_cases hplus : c = '+'
  · subst hplus
    rfl
  · by_cases hminus : c = '-'
    · subst hminus
      rfl
    · rw [if_neg (by simp [isSign, hplus, hminus]), Text.dropSign]
      · rintro _ ⟨⟩
        exact hplus rfl
      · rintro _ ⟨⟩
        exact hminus rfl

/-! ## Numerals that are numeric literals -/

theorem isNumeralBody_append_digits {before : Option Char} {digits rest : List Char}
    (hbefore : before.any isExponentMark = false) (hdigits : digits.all Char.isDigit = true)
    (h : isNumeralBody before (digits ++ rest) = true) :
    ∃ last, last.any isExponentMark = false ∧ isNumeralBody last rest = true := by
  induction digits generalizing before with
  | nil => exact ⟨before, hbefore, h⟩
  | cons c digits ih =>
    simp only [List.all_cons, Bool.and_eq_true] at hdigits
    simp only [List.cons_append, isNumeralBody, Bool.and_eq_true] at h
    exact ih (by simpa using isExponentMark_of_isDigit hdigits.1) hdigits.2 h.2

/-- What follows no mark and holds neither a point nor a mark is all digits: there is no mark for a
sign to stand behind. -/
theorem all_isDigit_of_isNumeralBody {before : Option Char} {cs : List Char}
    (hbefore : before.any isExponentMark = false) (h : isNumeralBody before cs = true)
    (hpoint : '.' ∉ cs) (hmark : ∀ c ∈ cs, isExponentMark c = false) :
    cs.all Char.isDigit = true := by
  induction cs generalizing before with
  | nil => rfl
  | cons c cs ih =>
    rw [List.mem_cons, not_or] at hpoint
    rw [List.forall_mem_cons] at hmark
    simp only [isNumeralBody, hbefore, hmark.1, Bool.and_false, Bool.or_false, Bool.and_eq_true,
      Bool.or_eq_true, beq_iff_eq, Ne.symm hpoint.1, or_false] at h
    rw [List.all_cons, h.1, ih (by simpa using hmark.1) h.2 hpoint.2 hmark.2, Bool.and_true]

/-- Behind its mark an exponent is a sign, which may be missing, and digits. -/
theorem isDigits_dropSign {mark : Char} {cs : List Char} (h : isNumeralBody (some mark) cs = true)
    (hpoint : '.' ∉ cs) (hmark : ∀ c ∈ cs, isExponentMark c = false)
    (hlast : ∀ c ∈ (mark :: cs).getLast?, (isExponentMark c || isSign c) = false)
    (hend : isExponentMark mark = true) : Text.isDigits (Text.dropSign cs) = true := by
  cases cs with
  | nil => simp [hend] at hlast
  | cons d ds =>
    rw [List.mem_cons, not_or] at hpoint
    rw [List.forall_mem_cons] at hmark
    simp only [isNumeralBody, hmark.1, Bool.or_false, Bool.and_eq_true, Bool.or_eq_true, beq_iff_eq,
      Ne.symm hpoint.1, or_false] at h
    have hds : ds.all Char.isDigit = true :=
      all_isDigit_of_isNumeralBody (by simpa using hmark.1) h.2 hpoint.2 hmark.2
    by_cases hsign : isSign d = true
    · have hne : ds ≠ [] := by
        rintro rfl
        simp [hsign] at hlast
      simp [dropSign_cons, hsign, Text.isDigits, hne, hds]
    · have hdigit : d.isDigit = true := by
        rcases h.1 with hdigit | ⟨hs, -⟩
        · exact hdigit
        · exact absurd hs hsign
      simp [dropSign_cons, hsign, Text.isDigits, hdigit, hds]

/-- What stands behind the digits of a numeral, has no point and at most one mark is an exponent. -/
theorem isExponent_of_isNumeralBody {before : Option Char} {cs : List Char}
    (hbefore : before.any isExponentMark = false) (h : isNumeralBody before cs = true)
    (hhead : startsDigit cs = false) (hpoint : '.' ∉ cs) (hmarks : cs.countP isExponentMark ≤ 1)
    (hlast : ∀ c ∈ cs.getLast?, (isExponentMark c || isSign c) = false) :
    CSharp.isExponent cs = true := by
  cases cs with
  | nil => rfl
  | cons c cs =>
    rw [List.mem_cons, not_or] at hpoint
    have hdigit : c.isDigit = false := hhead
    simp only [isNumeralBody, hbefore, hdigit, Bool.and_false, Bool.or_false, Bool.false_or,
      Bool.and_eq_true, Bool.or_eq_true, beq_iff_eq, Ne.symm hpoint.1, false_or] at h
    have hothers : ∀ d ∈ cs, isExponentMark d = false := by
      rw [List.countP_cons_of_pos h.1] at hmarks
      have hzero : cs.countP isExponentMark = 0 := by omega
      simpa [List.countP_eq_zero] using hzero
    have hdigits := isDigits_dropSign h.2 hpoint.2 hothers hlast h.1
    have hmark : c = 'e' ∨ c = 'E' := by simpa [isExponentMark] using h.1
    simp [CSharp.isExponent, hdigits, hmark]

/-- The digits at the head of a text, and what stands behind them. -/
theorem exists_digits (cs : List Char) : ∃ digits rest, cs = digits ++ rest ∧
    digits.all Char.isDigit = true ∧ startsDigit rest = false := by
  induction cs with
  | nil => exact ⟨[], [], rfl, rfl, rfl⟩
  | cons c cs ih =>
    cases hc : c.isDigit with
    | true =>
      obtain ⟨digits, rest, rfl, hdigits, hrest⟩ := ih
      exact ⟨c :: digits, rest, rfl, by simpa [hc] using hdigits, hrest⟩
    | false => exact ⟨[], c :: cs, rfl, rfl, hc⟩

theorem eq_dropSign_or (cs : List Char) :
    cs = Text.dropSign cs ∨ ∃ sign, isSign sign = true ∧ cs = sign :: Text.dropSign cs := by
  cases cs with
  | nil => exact .inl rfl
  | cons c cs =>
    rw [dropSign_cons]
    split
    · rename_i hsign
      exact .inr ⟨c, hsign, rfl⟩
    · exact .inl rfl

theorem isFraction_cases {cs : List Char} (h : CSharp.isFraction cs = true) :
    cs = [] ∨ ∃ digits, cs = '.' :: digits ∧ Text.isDigits digits = true := by
  cases cs with
  | nil => exact .inl rfl
  | cons c cs =>
    simp only [CSharp.isFraction, Bool.and_eq_true, beq_iff_eq] at h
    exact .inr ⟨cs, by rw [h.1], h.2⟩

theorem isExponent_cases {cs : List Char} (h : CSharp.isExponent cs = true) :
    cs = [] ∨ ∃ mark behind, cs = mark :: behind ∧ isExponentMark mark = true ∧
      Text.isDigits (Text.dropSign behind) = true := by
  cases cs with
  | nil => exact .inl rfl
  | cons c cs =>
    simp only [CSharp.isExponent, Bool.and_eq_true] at h
    exact .inr ⟨c, cs, rfl, h.1, h.2⟩

/-- The characters of an exponent behind its mark. -/
theorem isDigit_or_isSign {cs : List Char} (h : Text.isDigits (Text.dropSign cs) = true) :
    ∀ c ∈ cs, c.isDigit = true ∨ isSign c = true := by
  rw [Text.isDigits_eq_true_iff] at h
  intro c hc
  rcases eq_dropSign_or cs with heq | ⟨sign, hsign, heq⟩
  · rw [heq] at hc
    exact .inl (h.2 c hc)
  · rw [heq, List.mem_cons] at hc
    rcases hc with rfl | hc
    · exact .inr hsign
    · exact .inl (h.2 c hc)

section Numbers

variable (n : CSharp.Number)

/-- A number ends in digits if its suffix is left out. -/
theorem exists_digits_suffix : ∃ digits, Text.isDigits digits = true ∧ digits <:+ n.body := by
  rcases isExponent_cases n.isExponent_exponent with hexponent | ⟨mark, behind, hexponent, -, hdigits⟩
  · rcases isFraction_cases n.isFraction_fraction with hfraction | ⟨digits, hfraction, hdigits⟩
    · refine ⟨n.whole, ?_, by simp [CSharp.Number.body, hexponent, hfraction]⟩
      simpa [Text.isDigits, hfraction, n.whole_digits] using n.ne_nil
    · exact ⟨digits, hdigits, n.whole ++ ['.'], by simp [CSharp.Number.body, hexponent, hfraction]⟩
  · refine ⟨_, hdigits, ?_⟩
    have hsuffix : Text.dropSign behind <:+ behind := by
      rcases eq_dropSign_or behind with heq | ⟨sign, -, heq⟩
      · exact ⟨[], heq.symm⟩
      · exact ⟨[sign], heq.symm⟩
    rw [CSharp.Number.body, hexponent]
    exact ((hsuffix.trans (List.suffix_cons _ _)).trans (List.suffix_append _ _)).trans
      (List.suffix_append _ _)

theorem isNumeralSuffix_getLast?_body : ∀ c ∈ n.body.getLast?, isNumeralSuffix c = false := by
  obtain ⟨digits, hdigits, front, hbody⟩ := exists_digits_suffix n
  rw [Text.isDigits_eq_true_iff] at hdigits
  intro c hc
  rw [← hbody, List.getLast?_append_of_ne_nil _ hdigits.1] at hc
  exact isNumeralSuffix_of_isDigit (hdigits.2 c (List.mem_of_getLast? hc))

theorem not_mem_exponent : '.' ∉ n.exponent := by
  rcases isExponent_cases n.isExponent_exponent with h | ⟨mark, behind, h, hmark, hdigits⟩
  · simp [h]
  · rw [h, List.mem_cons, not_or]
    refine ⟨?_, fun hpoint => ?_⟩
    · rintro rfl
      exact absurd hmark (by decide)
    · exact absurd (isDigit_or_isSign hdigits _ hpoint) (by decide)

theorem pointsPlaced_body : pointsPlaced true n.body = true := by
  rw [CSharp.Number.body, pointsPlaced_append_digits n.whole_digits]
  rcases isFraction_cases n.isFraction_fraction with h | ⟨digits, h, hdigits⟩
  · rw [h, List.nil_append]
    exact pointsPlaced_of_not_mem (not_mem_exponent n) true
  · rw [Text.isDigits_eq_true_iff] at hdigits
    have hstarts : startsDigit (digits ++ n.exponent) = true := by
      cases digits with
      | nil => exact absurd rfl hdigits.1
      | cons d ds => exact hdigits.2 d List.mem_cons_self
    have hpoint : '.' ∉ digits ++ n.exponent := by
      rw [List.mem_append, not_or]
      exact ⟨fun hmem => absurd (hdigits.2 _ hmem) (by decide), not_mem_exponent n⟩
    rw [h, List.cons_append, pointsPlaced, hstarts, pointsPlaced_of_not_mem hpoint]
    rfl

theorem countP_body : n.body.countP isExponentMark ≤ 1 := by
  have hdigits : ∀ digits : List Char, (∀ c ∈ digits, c.isDigit = true) →
      digits.countP isExponentMark = 0 := by
    intro digits h
    rw [List.countP_eq_zero]
    intro c hc
    simp [isExponentMark_of_isDigit (h c hc)]
  have hwhole := hdigits _ (List.all_eq_true.1 n.whole_digits)
  have hfraction : n.fraction.countP isExponentMark = 0 := by
    rcases isFraction_cases n.isFraction_fraction with h | ⟨digits, h, hds⟩
    · simp [h]
    · rw [Text.isDigits_eq_true_iff] at hds
      rw [h, List.countP_cons_of_neg (by decide), hdigits _ hds.2]
  have hexponent : n.exponent.countP isExponentMark ≤ 1 := by
    rcases isExponent_cases n.isExponent_exponent with h | ⟨mark, behind, h, hmark, hds⟩
    · simp [h]
    · have hbehind : behind.countP isExponentMark = 0 := by
        rw [List.countP_eq_zero]
        intro c hc
        rcases isDigit_or_isSign hds c hc with hc | hc
        · simp [isExponentMark_of_isDigit hc]
        · simp [isExponentMark_of_isSign hc]
      rw [h, List.countP_cons_of_pos hmark, hbehind]
  simp only [CSharp.Number.body, List.countP_append]
  omega

end Numbers

/-- An integer is all digits: a fraction has a point and an exponent has a mark. -/
theorem all_isDigit_append {whole fraction exponent : List Char}
    (hwhole : whole.all Char.isDigit = true) (hfraction : CSharp.isFraction fraction = true)
    (hexponent : CSharp.isExponent exponent = true) :
    (whole ++ (fraction ++ exponent)).all Char.isDigit =
      (fraction.isEmpty && exponent.isEmpty) := by
  rw [List.all_append, List.all_append, hwhole, Bool.true_and]
  rcases isFraction_cases hfraction with rfl | ⟨digits, rfl, -⟩
  · rcases isExponent_cases hexponent with rfl | ⟨mark, behind, rfl, hmark, -⟩
    · rfl
    · have hdigit : mark.isDigit = false := by
        rw [← Bool.not_eq_true]
        intro hdigit
        rw [isExponentMark_of_isDigit hdigit] at hmark
        cases hmark
      simp [hdigit]
  · simp

/-- A numeral whose points are in place and that has at most one mark is digits, a fraction and an
exponent. -/
theorem exists_parts {body : List Char} (hbody : isNumeralBody none body = true)
    (hhead : ∀ c ∈ body.head?, c.isDigit = true ∨ c = '.') (hne : body ≠ [])
    (hlast : ∀ c ∈ body.getLast?, (isExponentMark c || isSign c) = false)
    (hpoints : pointsPlaced true body = true) (hmarks : body.countP isExponentMark ≤ 1) :
    ∃ whole fraction exponent, body = whole ++ (fraction ++ exponent) ∧
      whole.all Char.isDigit = true ∧ CSharp.isFraction fraction = true ∧
      (whole ≠ [] ∨ fraction ≠ []) ∧ CSharp.isExponent exponent = true := by
  obtain ⟨whole, rest, rfl, hwhole, hrest⟩ := exists_digits body
  obtain ⟨before, hbefore, hread⟩ := isNumeralBody_append_digits rfl hwhole hbody
  rw [pointsPlaced_append_digits hwhole] at hpoints
  have hend : ∀ exponent, exponent <:+ whole ++ rest →
      ∀ c ∈ exponent.getLast?, (isExponentMark c || isSign c) = false := by
    rintro exponent ⟨front, hfront⟩ c hc
    exact hlast c (by simp [← hfront, List.getLast?_append, Option.mem_def.1 hc])
  have hcount : ∀ exponent, exponent <:+ whole ++ rest → exponent.countP isExponentMark ≤ 1 :=
    fun exponent h => h.sublist.countP_le.trans hmarks
  cases rest with
  | nil => exact ⟨whole, [], [], rfl, hwhole, rfl, .inl (by simpa using hne), rfl⟩
  | cons c rest =>
    have hdigit : c.isDigit = false := hrest
    simp only [pointsPlaced, hdigit, Bool.and_false, Bool.true_and, Bool.and_eq_true] at hpoints
    have hpoint := not_mem_of_pointsPlaced hpoints.2
    -- a point begins the fraction and then no other point follows, all else begins the exponent
    by_cases hc : c = '.'
    · subst hc
      simp only [isNumeralBody, Bool.and_eq_true] at hread
      obtain ⟨digits, exponent, rfl, hdigits, hexponent⟩ := exists_digits rest
      obtain ⟨last, hmark, hbehind⟩ := isNumeralBody_append_digits rfl hdigits hread.2
      have hdigits' : Text.isDigits digits = true := by
        cases digits with
        | nil => simp [hexponent] at hpoints
        | cons d ds => simpa [Text.isDigits] using hdigits
      have hsuffix : exponent <:+ whole ++ '.' :: (digits ++ exponent) :=
        ⟨whole ++ '.' :: digits, by simp⟩
      refine ⟨whole, '.' :: digits, exponent, rfl, hwhole, hdigits', .inr (by simp), ?_⟩
      exact isExponent_of_isNumeralBody hmark hbehind hexponent
        (fun hmem => hpoint (List.mem_append_right _ hmem)) (hcount _ hsuffix) (hend _ hsuffix)
    · have hsuffix : c :: rest <:+ whole ++ c :: rest := List.suffix_append _ _
      have hwhole_ne : whole ≠ [] := by
        rintro rfl
        simpa [hdigit, hc] using hhead c rfl
      refine ⟨whole, [], c :: rest, rfl, hwhole, rfl, .inl hwhole_ne, ?_⟩
      exact isExponent_of_isNumeralBody hbefore hread hrest (by simp [Ne.symm hc, hpoint])
        (hcount _ hsuffix) (hend _ hsuffix)

/-- Which numerals are numeric literals. -/
theorem isNumber_iff {cs : List Char} (h : isNumeral cs = true)
    (hhead : ∀ c ∈ cs.head?, c.isDigit = true ∨ c = '.') :
    IsNumber cs ↔
      pointsPlaced true (numeralBody cs) = true ∧
      (numeralBody cs).countP isExponentMark ≤ 1 ∧
      CSharp.isSuffix ((numeralBody cs).all Char.isDigit) (numeralSuffix cs) = true := by
  constructor
  · rintro ⟨n, rfl⟩
    obtain ⟨hbody, hsuffix⟩ := numeralBody_append (isNumeralSuffix_getLast?_body n)
      (isNumeralSuffix_of_isSuffix n.isSuffix_suffix)
    rw [hbody, hsuffix]
    refine ⟨pointsPlaced_body n, countP_body n, ?_⟩
    rw [CSharp.Number.body,
      all_isDigit_append n.whole_digits n.isFraction_fraction n.isExponent_exponent]
    exact n.isSuffix_suffix
  · rintro ⟨hpoints, hmarks, hsuffix⟩
    have hjoin := numeralBody_append_numeralSuffix cs
    have hnumeral : (numeralBody cs ≠ [] ∧ isNumeralBody none (numeralBody cs) = true) ∧
        ∀ c ∈ (numeralBody cs).getLast?, (isExponentMark c || isSign c) = false := by
      simpa [isNumeral, numeralBody, Option.any_eq_false] using h
    have hfirst : ∀ c ∈ (numeralBody cs).head?, c.isDigit = true ∨ c = '.' := by
      intro c hc
      exact hhead c (by rw [← hjoin]; simp [List.head?_append, Option.mem_def.1 hc])
    obtain ⟨whole, fraction, exponent, hparts, hwhole, hfraction, hne, hexponent⟩ :=
      exists_parts hnumeral.1.2 hfirst hnumeral.1.1 hnumeral.2 hpoints hmarks
    rw [hparts, all_isDigit_append hwhole hfraction hexponent] at hsuffix
    exact ⟨⟨whole, fraction, exponent, numeralSuffix cs, hwhole, hfraction, hne, hexponent, hsuffix⟩,
      by rw [CSharp.Number.body, ← hparts, hjoin]⟩

/-! ## Strings that are string literals -/

/-- What stands behind each backslash that escapes the character behind it. -/
def escapeTails : List Char → List (List Char)
  | [] => []
  | ['\\'] => []
  | '\\' :: c :: cs => (c :: cs) :: escapeTails cs
  | _ :: cs => escapeTails cs

/-- Whether a text begins with an escape that lacks its backslash. -/
def beginsEscape (tail : List Char) : Bool :=
  tail.inits.any isEscape

theorem beginsEscape_eq_true_iff (tail : List Char) :
    beginsEscape tail = true ↔ ∃ e rest, isEscape e = true ∧ e ++ rest = tail := by
  simp only [beginsEscape, List.any_eq_true, List.mem_inits, List.IsPrefix]
  constructor
  · rintro ⟨e, ⟨rest, htail⟩, he⟩
    exact ⟨e, rest, he, htail⟩
  · rintro ⟨e, rest, he, htail⟩
    exact ⟨e, ⟨rest, htail⟩, he⟩

theorem isInside_cons {c : Char} {cs : List Char} (hquote : c ≠ '"') (hbackslash : c ≠ '\\') :
    IsInside (c :: cs) ↔ isLineTerminator c = false ∧ IsInside cs := by
  constructor
  · intro h
    cases h with
    | char _ _ hline h => exact ⟨hline, h⟩
    | escape => exact absurd rfl hbackslash
  · rintro ⟨hline, h⟩
    exact .char hquote hbackslash hline h

theorem isHexDigit_of_isLineTerminator {c : Char} (h : isLineTerminator c = true) :
    isHexDigit c = false := by
  simp only [isLineTerminator, List.contains_iff_mem, List.mem_cons, List.not_mem_nil,
    or_false] at h
  rcases h with rfl | rfl | rfl | rfl | rfl <;> decide

theorem isEscape_of_isLineTerminator {c : Char} (h : isLineTerminator c = true)
    (digits : List Char) : isEscape (c :: digits) = false := by
  simp only [isLineTerminator, List.contains_iff_mem, List.mem_cons, List.not_mem_nil,
    or_false] at h
  rcases h with rfl | rfl | rfl | rfl | rfl <;> simp [isEscape]

theorem isInside_hexDigits {digits : List Char} (h : digits.all isHexDigit = true) (cs : List Char) :
    IsInside (digits ++ cs) ↔ IsInside cs := by
  induction digits with
  | nil => rfl
  | cons d digits ih =>
    simp only [List.all_cons, Bool.and_eq_true] at h
    have hplain : ∀ c, isHexDigit c = false → d ≠ c := by
      rintro c hc rfl
      rw [hc] at h
      exact absurd h.1 (by decide)
    have hline : isLineTerminator d = false := by
      rw [← Bool.not_eq_true]
      intro hline
      exact hplain d (isHexDigit_of_isLineTerminator hline) rfl
    rw [List.cons_append, isInside_cons (hplain _ (by decide)) (hplain _ (by decide)), ih h.2]
    exact and_iff_right hline

theorem all_isHexDigit_of_isEscape {c : Char} {digits : List Char}
    (h : isEscape (c :: digits) = true) : digits.all isHexDigit = true := by
  rw [isEscape, Bool.and_eq_true] at h
  exact h.1

/-- What stands behind an escaped character can be read alone, even where the escape goes on: its
hexadecimal digits are characters of a string too. -/
theorem isInside_backslash (c : Char) (cs : List Char) :
    IsInside ('\\' :: c :: cs) ↔ beginsEscape (c :: cs) = true ∧ IsInside cs := by
  rw [beginsEscape_eq_true_iff]
  constructor
  · intro h
    generalize htext : '\\' :: c :: cs = text at h
    cases h with
    | nil => cases htext
    | char _ hbackslash =>
      cases htext
      exact absurd rfl hbackslash
    | @escape e rest he h =>
      obtain ⟨-, htail⟩ := List.cons.inj htext
      refine ⟨⟨e, rest, he, htail.symm⟩, ?_⟩
      cases e with
      | nil => cases he
      | cons d digits =>
        obtain ⟨-, rfl⟩ := List.cons.inj htail
        exact (isInside_hexDigits (all_isHexDigit_of_isEscape he) rest).2 h
  · rintro ⟨⟨e, rest, he, htail⟩, h⟩
    rw [← htail]
    refine .escape he ?_
    cases e with
    | nil => cases he
    | cons d digits =>
      obtain ⟨-, rfl⟩ := List.cons.inj htail
      exact (isInside_hexDigits (all_isHexDigit_of_isEscape he) rest).1 h

/-- Which strings are string literals, with what stands between their quotes. -/
theorem isInside_iff {cs : List Char} {n : Nat} (h : stringLength? cs = some n) :
    ∃ inside, cs.take n = inside ++ ['"'] ∧
      (IsInside inside ↔ inside.all (!isLineTerminator ·) = true ∧
        (escapeTails inside).all beginsEscape = true) := by
  fun_induction stringLength? cs generalizing n with
  | case1 => cases h
  | case2 => cases h
  | case3 c cs ih =>
    obtain ⟨m, hm, rfl⟩ := Option.map_eq_some_iff.1 h
    obtain ⟨inside, hinside, hiff⟩ := ih hm
    refine ⟨'\\' :: c :: inside, by simp [hinside], ?_⟩
    -- the escaped character may be a line terminator too, but none begins an escape
    have hline : beginsEscape (c :: inside) = true → isLineTerminator c = false := by
      rw [beginsEscape_eq_true_iff]
      rintro ⟨e, rest, he, htail⟩
      cases e with
      | nil => cases he
      | cons d digits =>
        obtain ⟨rfl, -⟩ := List.cons.inj htail
        rw [← Bool.not_eq_true]
        intro hline
        rw [isEscape_of_isLineTerminator hline] at he
        cases he
    have hbackslash : isLineTerminator '\\' = false := by decide
    simp only [isInside_backslash, hiff, escapeTails, List.all_cons, Bool.and_eq_true,
      Bool.not_eq_true', hbackslash]
    tauto
  | case4 c cs hlast hescape hquote =>
    cases h
    exact ⟨[], by simpa using hquote, by simp [IsInside.nil, escapeTails]⟩
  | case5 c cs hlast hescape hquote ih =>
    obtain ⟨m, hm, rfl⟩ := Option.map_eq_some_iff.1 h
    obtain ⟨inside, hinside, hiff⟩ := ih hm
    have hbackslash := ne_backslash hlast hescape
    have htails : escapeTails (c :: inside) = escapeTails inside := by
      rw [escapeTails]
      · rintro rfl
        exact absurd rfl hbackslash
      · rintro d ds rfl
        exact absurd rfl hbackslash
    refine ⟨c :: inside, by simp [hinside], ?_⟩
    rw [isInside_cons (by simpa using hquote) hbackslash, hiff, htails, List.all_cons,
      Bool.and_eq_true, Bool.not_eq_true', and_assoc]

/-- What stands between the quotes of a string. -/
def stringInside (cs : List Char) : List Char :=
  cs.tail.dropLast

theorem isString_iff {cs : List Char} {n : Nat} (h : stringLength? cs = some n) :
    IsString ('"' :: cs.take n) ↔
      (stringInside ('"' :: cs.take n)).all (!isLineTerminator ·) = true ∧
        (escapeTails (stringInside ('"' :: cs.take n))).all beginsEscape = true := by
  obtain ⟨inside, hinside, hiff⟩ := isInside_iff h
  rw [hinside, stringInside, List.tail_cons, List.dropLast_concat, ← hiff]
  constructor
  · rintro ⟨other, hother, heq⟩
    rwa [← List.append_cancel_right (List.cons.inj heq).2]
  · intro hinside
    exact ⟨inside, hinside, rfl⟩

/-! ## The literals among the tokens of a text -/

/-- Which tokens of a text are literals of the generated code. A number is one exactly if every point in
it has only digits before it and a digit behind it, at most one exponent mark is in it, and the letters
at its end are a suffix for it. A string is one exactly if it holds no line terminator and every
backslash that escapes a character begins an escape. -/
theorem literals_of_scan {text : String} {ts : List Token} (h : scan text = .ok ts) :
    (∀ literal, .number literal ∈ ts → (IsNumber literal.toList ↔
      pointsPlaced true (numeralBody literal.toList) = true ∧
      (numeralBody literal.toList).countP isExponentMark ≤ 1 ∧
      CSharp.isSuffix ((numeralBody literal.toList).all Char.isDigit)
        (numeralSuffix literal.toList) = true)) ∧
    ∀ literal, .string literal ∈ ts → (IsString literal.toList ↔
      (stringInside literal.toList).all (!isLineTerminator ·) = true ∧
      (escapeTails (stringInside literal.toList)).all beginsEscape = true) := by
  constructor
  · intro literal hmem
    obtain ⟨c, cs, -, hc, hliteral⟩ := number_of_scan h hmem
    refine isNumber_iff (isNumeral_of_scan h hmem) ?_
    rw [hliteral]
    rintro d ⟨⟩
    exact hc
  · intro literal hmem
    obtain ⟨cs, n, -, hlength, hliteral⟩ := string_of_scan h hmem
    rw [hliteral]
    exact isString_iff hlength

/-- A number with all its parts and a string with two escapes. -/
theorem literals_of_scan_sum :
    scan "1.5e-3F + \"\\t\\x41\"" =
      .ok [.number "1.5e-3F", .operator .plus, .string "\"\\t\\x41\""] ∧
    IsNumber "1.5e-3F".toList ∧ IsString "\"\\t\\x41\"".toList := by
  have hscan : scan "1.5e-3F + \"\\t\\x41\"" =
      .ok [.number "1.5e-3F", .operator .plus, .string "\"\\t\\x41\""] := by decide +kernel
  have hliterals := literals_of_scan hscan
  exact ⟨hscan, (hliterals.1 _ (by simp)).2 (by decide +kernel),
    (hliterals.2 _ (by simp)).2 (by decide +kernel)⟩

/-- A numeral with two points and a string with a line break in it are read, and are no literals of the
generated code. -/
theorem scan_outOfPlace :
    scan "1.2.3 + \"a\nb\"" = .ok [.number "1.2.3", .operator .plus, .string "\"a\nb\""] ∧
    ¬ IsNumber "1.2.3".toList ∧ ¬ IsString "\"a\nb\"".toList := by
  refine ⟨by decide +kernel, ?_, ?_⟩
  · rw [isNumber_iff (by decide +kernel) (by rintro c ⟨⟩; exact .inl rfl)]
    decide +kernel
  · have hlength : stringLength? "a\nb\"".toList = some 4 := by decide +kernel
    have hiff := isString_iff hlength
    rw [show '"' :: "a\nb\"".toList.take 4 = "\"a\nb\"".toList by decide +kernel] at hiff
    rw [hiff]
    decide +kernel

end SsisCompiler.Expression
