import SsisCompiler.CSharp.ValueType
import SsisCompiler.Proofs.Expression.Literals
import SsisCompiler.Proofs.Text.Integers

/-!
# Initial values of variables

The initial value of a number is made from the text that a package stores. An integer is read and shown
again, so its literal is canonical however the text spells it. A real number is only checked, and then
its text goes into the program as it is.

Results:
* `initialValue_integer_exact`: the literal of an integer is its canonical numeral, and a text that is no
  integer of the type gives the default.
* `exists_parts_of_isFiniteReal`: how the reals that are accepted are built up.
* `initialValue_real_iff`: which texts give a real literal. One that does not has a point without a digit
  behind it.
-/

namespace SsisCompiler.CSharp

open Expression (startsDigit)
open Text (Denotes IsCanonical)

/-! ## Stored texts -/

/-- A reader that reads nothing from an empty text need not be kept from it. -/
theorem bind_trimmed {α : Type} {read : String → Option α} (hempty : read "" = none)
    (stored : Option String) :
    ((stored.map Text.trim).filter (!·.isEmpty)).bind read = (stored.map Text.trim).bind read := by
  cases stored with
  | none => rfl
  | some text =>
    rw [Option.map_some, Option.filter_some]
    split
    · rfl
    · rename_i htext
      have htrim : Text.trim text = "" := by simpa using htext
      rw [htrim, Option.bind_none, Option.bind_some, hempty]

/-! ## Integers -/

theorem ofName_integer (t : IntegerType) : ValueType.ofName t.name = .integer t := by
  cases t <;> rfl

/-- Whether a number is in the range of a type. -/
def IntegerType.holds (t : IntegerType) (n : Int) : Bool :=
  t.least ≤ n && n ≤ t.greatest

theorem IntegerType.holds_eq_true_iff (t : IntegerType) (n : Int) :
    t.holds n = true ↔ t.least ≤ n ∧ n ≤ t.greatest := by
  simp [IntegerType.holds]

/-- Every type holds only numbers of 128 bits. -/
theorem fit128_of_holds {t : IntegerType} {n : Int} (h : t.holds n = true) :
    Text.fit128 n = some n := by
  have hwide : -Int.pow 2 127 ≤ t.least ∧ t.greatest < Int.pow 2 127 := by
    cases t <;> decide
  obtain ⟨hleast, hgreatest⟩ := (t.holds_eq_true_iff n).1 h
  have hlow : -Int.pow 2 127 ≤ n := Int.le_trans hwide.1 hleast
  have hhigh : n < Int.pow 2 127 := Int.lt_of_le_of_lt hgreatest hwide.2
  rw [Text.fit128, if_pos]
  rw [Bool.and_eq_true, decide_eq_true_eq, decide_eq_true_eq]
  exact ⟨hlow, hhigh⟩

/-- As far as a type holds the number that a text denotes, the bound of the reader makes no
difference. -/
theorem filter_int128? (t : IntegerType) (s : String) :
    (Text.int128? s).filter t.holds = (Text.integer? s).filter t.holds := by
  rw [Text.int128?_eq_bind]
  cases Text.integer? s with
  | none => rfl
  | some n =>
    rw [Option.bind_some]
    by_cases hn : t.holds n = true
    · rw [fit128_of_holds hn]
    · unfold Text.fit128
      split
      · rfl
      · rw [Option.filter_none, Option.filter_some, if_neg hn]

theorem initialValue_integer (t : IntegerType) (stored : Option String) :
    ValueType.initialValue (.integer t) stored =
      (((stored.map Text.trim).bind Text.integer?).filter t.holds).elim
        (ValueType.defaultOf t.name) toString := by
  have hread : ((stored.map Text.trim).bind Text.int128?).filter t.holds =
      ((stored.map Text.trim).bind Text.integer?).filter t.holds := by
    cases stored with
    | none => rfl
    | some text =>
      rw [Option.map_some, Option.bind_some, Option.bind_some]
      exact filter_int128? t (Text.trim text)
  rw [← hread, ← bind_trimmed (by decide)]
  show ValueType.integerLiteral t _ = _
  unfold ValueType.integerLiteral
  split
  · rename_i n hn
    rw [hn, Option.filter_some]
    show (if t.holds n = true then _ else _) = _
    split <;> rfl
  · rename_i hnone
    rw [hnone]
    rfl

/-- Initial values of integers are exact. If the stored text without the blanks around it denotes an
integer of the type, then the literal is the canonical numeral of that integer, and no other text; in
every other case it is the type's default. Whether the text is read within 128 bits or without a bound
makes no difference. -/
theorem initialValue_integer_exact (t : IntegerType) (stored : Option String) :
    (∀ text ∈ stored, ∀ z, Denotes (Text.trim text).toList z → t.least ≤ z → z ≤ t.greatest →
      ∀ literal, (ValueType.ofName t.name).initialValue stored = literal ↔
        IsCanonical literal.toList z) ∧
    ((¬ ∃ text ∈ stored, ∃ z, Denotes (Text.trim text).toList z ∧ t.least ≤ z ∧ z ≤ t.greatest) →
      (ValueType.ofName t.name).initialValue stored = "default(" ++ t.name ++ ")") ∧
    ∀ s, (Text.int128? s).filter t.holds = (Text.integer? s).filter t.holds := by
  rw [ofName_integer, initialValue_integer]
  refine ⟨?_, fun hnone => ?_, filter_int128? t⟩
  · rintro text ⟨⟩ z hz hleast hgreatest literal
    have hread : Text.integer? (Text.trim text) = some z := (Text.integer?_eq_some_iff _ z).2 hz
    have hholds : t.holds z = true := (t.holds_eq_true_iff z).2 ⟨hleast, hgreatest⟩
    rw [Option.map_some, Option.bind_some, hread, Option.filter_some, if_pos hholds,
      Option.elim_some, Text.isCanonical_iff, String.toList_inj]
    exact eq_comm
  · have hempty : ((stored.map Text.trim).bind Text.integer?).filter t.holds = none := by
      rw [Option.eq_none_iff_forall_not_mem]
      intro z hz
      obtain ⟨hread, hholds⟩ := Option.filter_eq_some_iff.1 hz
      obtain ⟨trimmed, htrimmed, hread⟩ := Option.bind_eq_some_iff.1 hread
      obtain ⟨text, htext, rfl⟩ := Option.map_eq_some_iff.1 htrimmed
      exact hnone ⟨text, htext, z, (Text.integer?_eq_some_iff _ z).1 hread,
        (t.holds_eq_true_iff z).1 hholds⟩
    rw [hempty]
    rfl

/-- The least `sbyte` with blanks around it and more zeros than 128 bits have digits, and a number just
beyond 128 bits. -/
theorem initialValue_integer_exact_long :
    (ValueType.ofName "sbyte").initialValue
        (some "\u00a0-00000000000000000000000000000000000000000128 ") = "-128" ∧
      (ValueType.ofName "ulong").initialValue (some "170141183460469231731687303715884105728") =
        "default(ulong)" := by
  constructor
  · refine ((initialValue_integer_exact .sbyte _).1 _ rfl (-128) ?_ (by decide) (by decide) _).2 ?_
    · exact (Text.integer?_eq_some_iff _ _).1 (by decide +kernel)
    · exact (Text.isCanonical_iff _ _).2 (by decide +kernel)
  · refine (initialValue_integer_exact .ulong _).2.1 ?_
    rintro ⟨text, ⟨⟩, z, hz, -, hgreatest⟩
    have hread : Text.integer? (Text.trim "170141183460469231731687303715884105728") =
        some 170141183460469231731687303715884105728 := by decide +kernel
    rw [← Text.integer?_eq_some_iff, hread] at hz
    obtain rfl := Option.some.inj hz
    exact absurd hgreatest (by decide)

/-! ## Real numbers -/

/-- A literal of a real type: a sign, which may be missing, a number without a suffix of its own, and
the suffix of the type. -/
def IsRealLiteral (t : RealType) (cs : List Char) : Prop :=
  ∃ (sign : List Char) (n : Number), (sign = [] ∨ sign = ['+'] ∨ sign = ['-']) ∧
    n.suffix = [] ∧ sign ++ (n.body ++ t.suffix.toList) = cs

/-- What a variable of a real type may be initialised with. -/
def IsRealValue (t : RealType) (s : String) : Prop :=
  s = "default(" ++ t.name ++ ")" ∨ IsRealLiteral t s.toList

/-- Every point of a text has a digit behind it. -/
def PointsClosed (cs : List Char) : Prop :=
  ∀ before after, cs = before ++ '.' :: after → startsDigit after = true

/-- Whether a text is a point and digits, of which there may be none, or nothing at all. -/
def isOpenFraction : List Char → Bool
  | [] => true
  | c :: cs => c == '.' && cs.all Char.isDigit

theorem ofName_real (t : RealType) : ValueType.ofName t.name = .real t := by
  cases t <;> rfl

theorem isExponent_of_exponent? {cs : List Char} {e : Int} (h : Text.exponent? cs = some e) :
    isExponent cs = true := by
  cases cs with
  | nil => rfl
  | cons mark rest =>
    rw [Text.exponent?] at h
    split at h
    · rename_i hmark
      have hdigits := ((Text.denotes_iff _ _).1 ((Text.integer?_eq_some_iff _ _).1 h)).1
      rw [String.toList_ofList] at hdigits
      have hletter : (mark == 'e' || mark == 'E') = true := by
        rcases Expression.eq_or_of_toLower (beq_iff_eq.1 hmark) with rfl | rfl <;> decide
      rw [isExponent, hletter, hdigits]
      rfl
    · cases h

/-- The parts of a real numeral without a sign: behind the point there may be no digit. -/
theorem exists_parts_of_unsignedReal? {cs : List Char} {r : Text.RealNumeral}
    (h : Text.unsignedReal? cs = some r) :
    ∃ whole fraction exponent, cs = whole ++ (fraction ++ exponent) ∧
      whole.all Char.isDigit = true ∧ isOpenFraction fraction = true ∧
      (whole ≠ [] ∨ fraction ≠ []) ∧ isExponent exponent = true := by
  have hdigits : ∀ ds : List Char, (ds.takeWhile Char.isDigit).all Char.isDigit = true := by
    intro ds
    exact List.all_eq_true.2 fun c hc => List.mem_takeWhile_imp hc
  have hwhole := hdigits cs
  have hcs := List.takeWhile_append_dropWhile (p := Char.isDigit) (l := cs)
  unfold Text.unsignedReal? at h
  dsimp only at h
  generalize cs.takeWhile Char.isDigit = whole at h hwhole hcs
  generalize cs.dropWhile Char.isDigit = rest at h hcs
  subst hcs
  split at h
  · rename_i more
    split at h
    · cases h
    · obtain ⟨e, he, -⟩ := Option.map_eq_some_iff.1 h
      refine ⟨whole, '.' :: more.takeWhile Char.isDigit, more.dropWhile Char.isDigit, ?_, hwhole,
        hdigits more, .inr (by simp), isExponent_of_exponent? he⟩
      rw [List.cons_append, List.takeWhile_append_dropWhile]
  · split at h
    · cases h
    · rename_i hne
      obtain ⟨e, he, -⟩ := Option.map_eq_some_iff.1 h
      exact ⟨whole, [], rest, rfl, hwhole, rfl, .inl (by simpa using hne),
        isExponent_of_exponent? he⟩

/-- The parts of a text that is accepted as a real number. -/
theorem exists_parts_of_isFiniteReal {s : String} (h : Text.isFiniteReal s = true) :
    ∃ sign whole fraction exponent, s.toList = sign ++ (whole ++ (fraction ++ exponent)) ∧
      (sign = [] ∨ sign = ['+'] ∨ sign = ['-']) ∧ whole.all Char.isDigit = true ∧
      isOpenFraction fraction = true ∧ (whole ≠ [] ∨ fraction ≠ []) ∧
      isExponent exponent = true := by
  unfold Text.isFiniteReal at h
  split at h
  · rename_i r hr
    obtain ⟨whole, fraction, exponent, hparts, hrest⟩ := exists_parts_of_unsignedReal? hr
    rcases Text.sign_cases s.toList with ⟨rest, hs⟩ | ⟨rest, hs⟩ | ⟨hplus, hminus⟩
    · rw [hs, Text.dropSign_minus] at hparts
      exact ⟨['-'], whole, fraction, exponent, by rw [hs, hparts]; rfl, by simp, hrest⟩
    · rw [hs, Text.dropSign_plus] at hparts
      exact ⟨['+'], whole, fraction, exponent, by rw [hs, hparts]; rfl, by simp, hrest⟩
    · rw [Text.dropSign_of_head hplus hminus] at hparts
      exact ⟨[], whole, fraction, exponent, hparts, by simp, hrest⟩
  · cases h

/-- A fraction whose point has a digit behind it is a fraction of a literal. An exponent begins with its
mark, so the digit belongs to the fraction. -/
theorem isFraction_of_pointsClosed {front fraction exponent : List Char}
    (hfraction : isOpenFraction fraction = true) (hexponent : isExponent exponent = true)
    (hclosed : PointsClosed (front ++ (fraction ++ exponent))) : isFraction fraction = true := by
  cases fraction with
  | nil => rfl
  | cons c digits =>
    simp only [isOpenFraction, Bool.and_eq_true, beq_iff_eq] at hfraction
    obtain ⟨rfl, hdigits⟩ := hfraction
    have hstarts := hclosed front (digits ++ exponent) rfl
    have hne : digits ≠ [] := by
      rintro rfl
      cases exponent with
      | nil => cases hstarts
      | cons mark rest =>
        simp only [isExponent, Bool.and_eq_true, Bool.or_eq_true, beq_iff_eq] at hexponent
        rcases hexponent.1 with rfl | rfl <;> cases hstarts
    simp [isFraction, Text.isDigits, hne, hdigits]

theorem startsDigit_of_pointsPlaced {digits : Bool} {before after : List Char}
    (h : Expression.pointsPlaced digits (before ++ '.' :: after) = true) :
    startsDigit after = true := by
  induction before generalizing digits with
  | nil =>
    simp only [List.nil_append, Expression.pointsPlaced, Bool.and_eq_true, Bool.or_eq_true] at h
    rcases h.1 with hne | hstarts
    · cases hne
    · exact hstarts.2
  | cons c before ih =>
    simp only [List.cons_append, Expression.pointsPlaced, Bool.and_eq_true] at h
    exact ih h.2

/-- The points of a number have a digit behind them, also behind a sign. -/
theorem pointsClosed_of_number {sign : List Char} (n : Number)
    (hsign : sign = [] ∨ sign = ['+'] ∨ sign = ['-']) : PointsClosed (sign ++ n.body) := by
  intro before after hpoint
  have hplaced := Expression.pointsPlaced_body n
  have hbody : ∃ rest, n.body = rest ++ '.' :: after := by
    rcases hsign with rfl | rfl | rfl
    · exact ⟨before, hpoint⟩
    all_goals
      cases before with
      | nil => cases hpoint
      | cons c before => exact ⟨before, (List.cons.inj hpoint).2⟩
  obtain ⟨rest, hrest⟩ := hbody
  rw [hrest] at hplaced
  exact startsDigit_of_pointsPlaced hplaced

/-- A text that is accepted does not begin as a default does. -/
theorem exists_cons_of_isFiniteReal {s : String} (h : Text.isFiniteReal s = true) :
    ∃ c rest, s.toList = c :: rest ∧ c ≠ 'd' := by
  obtain ⟨sign, whole, fraction, exponent, hs, hsign, hwhole, hfraction, hne, -⟩ :=
    exists_parts_of_isFiniteReal h
  rcases hsign with rfl | rfl | rfl
  · cases whole with
    | cons c whole =>
      refine ⟨c, _, hs, ?_⟩
      rintro rfl
      cases hwhole
    | nil =>
      cases fraction with
      | nil => simp at hne
      | cons c fraction =>
        refine ⟨c, _, hs, ?_⟩
        rintro rfl
        cases hfraction
  · exact ⟨'+', _, hs, by decide⟩
  · exact ⟨'-', _, hs, by decide⟩

/-- Which of the accepted texts are literals. -/
theorem isRealValue_append_suffix {s : String} (h : Text.isFiniteReal s = true) (t : RealType) :
    IsRealValue t (s ++ t.suffix) ↔ PointsClosed s.toList := by
  constructor
  · rintro (hdefault | ⟨sign, n, hsign, -, hliteral⟩)
    · obtain ⟨c, rest, hs, hc⟩ := exists_cons_of_isFiniteReal h
      have hhead : ("default(" ++ t.name ++ ")").toList.head? = some 'd' := by
        cases t <;> decide
      rw [← hdefault, String.toList_append, hs] at hhead
      exact absurd (Option.some.inj hhead) hc
    · rw [String.toList_append, ← List.append_assoc] at hliteral
      rw [← List.append_cancel_right hliteral]
      exact pointsClosed_of_number n hsign
  · intro hclosed
    obtain ⟨sign, whole, fraction, exponent, hs, hsign, hwhole, hfraction, hne, hexponent⟩ :=
      exists_parts_of_isFiniteReal h
    have hclosedFraction : isFraction fraction = true := by
      rw [hs, ← List.append_assoc] at hclosed
      exact isFraction_of_pointsClosed hfraction hexponent hclosed
    have hsuffix : isSuffix (fraction.isEmpty && exponent.isEmpty) [] = true := rfl
    refine .inr ⟨sign, ⟨whole, fraction, exponent, [], hwhole, hclosedFraction, hne, hexponent,
      hsuffix⟩, hsign, rfl, ?_⟩
    rw [String.toList_append, hs, List.append_assoc]
    rfl

theorem initialValue_real (t : RealType) (text : String) :
    ValueType.initialValue (.real t) (some text) =
      if Text.isFiniteReal (Text.trim text) then Text.trim text ++ t.suffix
      else "default(" ++ t.name ++ ")" := by
  show ValueType.realLiteral t (Option.filter _ (some (Text.trim text))) = _
  rw [Option.filter_some]
  split
  · rfl
  · rename_i hempty
    have htrim : Text.trim text = "" := by simpa using hempty
    rw [htrim]
    rfl

/-- Which stored texts give a variable of a real type the default or a literal with the suffix of the
type: all but the accepted ones in which a point has no digit behind it. -/
theorem initialValue_real_iff (t : RealType) (stored : Option String) :
    IsRealValue t ((ValueType.ofName t.name).initialValue stored) ↔
      ∀ text ∈ stored, Text.isFiniteReal (Text.trim text) = true →
        PointsClosed (Text.trim text).toList := by
  rw [ofName_real]
  cases stored with
  | none => exact iff_of_true (.inl rfl) (by simp)
  | some text =>
    rw [initialValue_real]
    by_cases hfinite : Text.isFiniteReal (Text.trim text) = true
    · rw [if_pos hfinite, isRealValue_append_suffix hfinite]
      simp [hfinite]
    · rw [if_neg hfinite]
      exact iff_of_true (.inl rfl) (by simp [hfinite])

/-- A number that ends in its point is accepted, and its literal has no digit behind the point. -/
theorem initialValue_real_openPoint :
    (ValueType.ofName "double").initialValue (some "1.") = "1." ∧ ¬ IsRealValue .double "1." := by
  refine ⟨by decide +kernel, fun hvalue => ?_⟩
  have hclosed : PointsClosed ['1', '.'] :=
    (isRealValue_append_suffix (s := "1.") (by decide +kernel) .double).1 hvalue
  exact absurd (hclosed ['1'] [] rfl) (by decide)

end SsisCompiler.CSharp
