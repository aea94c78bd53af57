import Mathlib.Data.Nat.Digits.Defs
import SsisCompiler.Proofs.Text.Pieces

/-!
# Integer numerals

What an integer numeral denotes, said apart from the two readers: one without a bound, and one that works
within 128 bits. The steps of the second one grow in magnitude, so it fails exactly if the number itself
does not fit. Among the numerals of an integer one is canonical, and that is how the integer is shown.

Results:
* `integer?_eq_some_iff`: what the reader without a bound reads.
* `readInt128_signed`, `int128?_eq_bind`: no step overflows unless the number does.
* `toDigits_ofDigitChars`: digits without a leading zero are those that their value is shown with.
* `isCanonical_iff`: the canonical numeral of an integer is the text that shows it.
-/

namespace SsisCompiler.Text

/-! ## What numerals denote -/

/-- A numeral and its integer: a sign, which may be missing, and one or more digits. -/
inductive Denotes : List Char → Int → Prop
  | unsigned {digits : List Char} (h : isDigits digits = true) :
      Denotes digits (Nat.ofDigitChars 10 digits 0)
  | plus {digits : List Char} (h : isDigits digits = true) :
      Denotes ('+' :: digits) (Nat.ofDigitChars 10 digits 0)
  | minus {digits : List Char} (h : isDigits digits = true) :
      Denotes ('-' :: digits) (-(Nat.ofDigitChars 10 digits 0 : Int))

/-- A canonical numeral: it has no plus sign, no zero before other digits, and is not minus zero. -/
structure IsCanonical (cs : List Char) (z : Int) : Prop where
  denotes : Denotes cs z
  no_plus : cs.head? ≠ some '+'
  no_leading_zero : ∀ rest, dropSign cs = '0' :: rest → rest = []
  no_minus_zero : cs ≠ ['-', '0']

/-- An integer with its sign apart. -/
def signed (negative : Bool) (n : Nat) : Int :=
  if negative then -(n : Int) else n

/-- Whether a text begins with a minus sign. -/
def isNegative (cs : List Char) : Bool :=
  cs.head? == some '-'

theorem dropSign_minus (cs : List Char) : dropSign ('-' :: cs) = cs := rfl

theorem dropSign_plus (cs : List Char) : dropSign ('+' :: cs) = cs := rfl

theorem dropSign_of_head {cs : List Char} (hplus : cs.head? ≠ some '+')
    (hminus : cs.head? ≠ some '-') : dropSign cs = cs := by
  rw [dropSign]
  · rintro rest rfl
    exact hplus rfl
  · rintro rest rfl
    exact hminus rfl

theorem isNegative_of_head {cs : List Char} (hminus : cs.head? ≠ some '-') :
    isNegative cs = false := by
  simpa [isNegative] using hminus

/-- A text begins with a minus sign, or with a plus sign, or with neither. -/
theorem sign_cases (cs : List Char) :
    (∃ rest, cs = '-' :: rest) ∨ (∃ rest, cs = '+' :: rest) ∨
      (cs.head? ≠ some '+' ∧ cs.head? ≠ some '-') := by
  cases cs with
  | nil => exact .inr (.inr (by simp))
  | cons c cs =>
    by_cases hminus : c = '-'
    · exact .inl ⟨cs, by rw [hminus]⟩
    · by_cases hplus : c = '+'
      · exact .inr (.inl ⟨cs, by rw [hplus]⟩)
      · exact .inr (.inr (by simp [hminus, hplus]))

/-- Digits do not begin with a sign. -/
theorem head?_of_isDigits {digits : List Char} (h : isDigits digits = true) :
    digits.head? ≠ some '+' ∧ digits.head? ≠ some '-' := by
  cases digits with
  | nil => simp
  | cons c cs =>
    have hc := ((isDigits_eq_true_iff _).1 h).2 c List.mem_cons_self
    constructor <;> rintro ⟨⟩ <;> exact absurd hc (by decide)

/-- What a text denotes is read off its sign and what stands behind it. -/
theorem denotes_iff (cs : List Char) (z : Int) :
    Denotes cs z ↔ isDigits (dropSign cs) = true ∧
      z = signed (isNegative cs) (Nat.ofDigitChars 10 (dropSign cs) 0) := by
  constructor
  · intro h
    cases h with
    | unsigned h =>
      obtain ⟨hplus, hminus⟩ := head?_of_isDigits h
      rw [dropSign_of_head hplus hminus, isNegative_of_head hminus]
      exact ⟨h, rfl⟩
    | plus h => exact ⟨h, rfl⟩
    | minus h => exact ⟨h, rfl⟩
  · rintro ⟨h, rfl⟩
    rcases sign_cases cs with ⟨rest, rfl⟩ | ⟨rest, rfl⟩ | ⟨hplus, hminus⟩
    · exact .minus h
    · exact .plus h
    · rw [dropSign_of_head hplus hminus] at h ⊢
      rw [isNegative_of_head hminus]
      exact .unsigned h

/-! ## Reading without a bound -/

theorem integer?_eq (s : String) :
    integer? s = if isDigits (dropSign s.toList) then
      some (signed (isNegative s.toList) (Nat.ofDigitChars 10 (dropSign s.toList) 0)) else none := by
  unfold integer? natural?
  rcases sign_cases s.toList with ⟨rest, hs⟩ | ⟨rest, hs⟩ | ⟨hplus, hminus⟩
  · rw [hs]
    rfl
  · rw [hs]
    show Option.map Int.ofNat (if isDigits rest then some (digitsValue rest) else none) = _
    rw [dropSign_plus]
    split <;> rfl
  · rw [dropSign_of_head hplus hminus, isNegative_of_head hminus]
    split
    · rename_i hs
      exact absurd (by rw [hs]; rfl) hminus
    · split
      · rename_i hs
        exact absurd (by rw [hs]; rfl) hplus
      · dsimp only
        split <;> rfl

theorem integer?_eq_some_iff (s : String) (z : Int) :
    integer? s = some z ↔ Denotes s.toList z := by
  rw [integer?_eq, denotes_iff]
  split
  · rename_i hdigits
    simp [hdigits, eq_comm]
  · rename_i hdigits
    simp [hdigits]

/-! ## Reading within 128 bits -/

theorem int128?_eq (s : String) :
    int128? s = if isDigits (dropSign s.toList) then
      readInt128 (isNegative s.toList) 0 (dropSign s.toList) else none := by
  unfold int128?
  rcases sign_cases s.toList with ⟨rest, hs⟩ | ⟨rest, hs⟩ | ⟨hplus, hminus⟩
  · rw [hs]
    rfl
  · rw [hs]
    rfl
  · rw [dropSign_of_head hplus hminus, isNegative_of_head hminus]
    split
    · rename_i hs
      exact absurd (by rw [hs]; rfl) hminus
    · rename_i hs
      exact absurd (by rw [hs]; rfl) hplus
    · rfl

/-- The greatest magnitude that 128 bits hold. There is one more negative number. -/
def limit128 (negative : Bool) : Nat :=
  if negative then Nat.pow 2 127 else Nat.pow 2 127 - 1

theorem fit128_signed (negative : Bool) (n : Nat) :
    fit128 (signed negative n) =
      if n ≤ limit128 negative then some (signed negative n) else none := by
  have hint : Int.pow 2 127 = 170141183460469231731687303715884105728 := by decide
  have hnat : Nat.pow 2 127 = 170141183460469231731687303715884105728 := by decide
  have hfits : (decide (-Int.pow 2 127 ≤ signed negative n) &&
      decide (signed negative n < Int.pow 2 127)) = decide (n ≤ limit128 negative) := by
    rw [Bool.eq_iff_iff]
    simp only [Bool.and_eq_true, decide_eq_true_eq, hint, limit128, hnat]
    cases negative
    · simp only [signed, Bool.false_eq_true, if_false]
      omega
    · simp only [signed, if_true]
      omega
  rw [fit128, hfits]
  simp

theorem le_ofDigitChars (cs : List Char) (n : Nat) : n ≤ Nat.ofDigitChars 10 cs n := by
  induction cs generalizing n with
  | nil => exact Nat.le_refl n
  | cons c cs ih =>
    rw [Nat.ofDigitChars_cons]
    have hstep := ih (10 * n + (c.toNat - '0'.toNat))
    omega

/-- One step of reading, with the sign apart. -/
theorem signed_step {c : Char} (hc : c.isDigit = true) (negative : Bool) (n : Nat) :
    10 * signed negative n = signed negative (10 * n) ∧
      (if negative then signed negative (10 * n) - ((c.toNat : Int) - ('0'.toNat : Int))
        else signed negative (10 * n) + ((c.toNat : Int) - ('0'.toNat : Int))) =
        signed negative (10 * n + (c.toNat - '0'.toNat)) := by
  have hdigit : '0'.toNat ≤ c.toNat := by
    simpa using of_isDigit (p := fun c => '0'.toNat ≤ c.toNat) (by decide) hc
  cases negative
  · simp only [signed, Bool.false_eq_true, if_false]
    omega
  · simp only [signed, if_true]
    omega

/-- By induction on the digits: a number that does not fit leaves none behind it that does, since what
is read can only grow in magnitude. -/
theorem readInt128_signed {cs : List Char} (hcs : ∀ c ∈ cs, c.isDigit = true) (negative : Bool)
    {n : Nat} (hn : n ≤ limit128 negative) :
    readInt128 negative (signed negative n) cs =
      fit128 (signed negative (Nat.ofDigitChars 10 cs n)) := by
  induction cs generalizing n with
  | nil => rw [readInt128, Nat.ofDigitChars_nil, fit128_signed, if_pos hn]
  | cons c cs ih =>
    obtain ⟨hc, hrest⟩ := List.forall_mem_cons.1 hcs
    obtain ⟨htens, hnext⟩ := signed_step hc negative n
    have hgrow := le_ofDigitChars cs (10 * n + (c.toNat - '0'.toNat))
    rw [readInt128, htens, fit128_signed, Nat.ofDigitChars_cons]
    by_cases hfits : 10 * n + (c.toNat - '0'.toNat) ≤ limit128 negative
    · rw [if_pos (by omega), Option.bind_some, hnext, fit128_signed, if_pos hfits,
        Option.bind_some, ih hrest hfits]
    · have hover : ¬ Nat.ofDigitChars 10 cs (10 * n + (c.toNat - '0'.toNat)) ≤ limit128 negative := by
        omega
      rw [fit128_signed negative (Nat.ofDigitChars _ _ _), if_neg hover]
      by_cases htensFit : 10 * n ≤ limit128 negative
      · rw [if_pos htensFit, Option.bind_some, hnext, fit128_signed, if_neg hfits, Option.bind_none]
      · rw [if_neg htensFit, Option.bind_none]

/-- The bounded reader reads the same numbers as far as they fit. -/
theorem int128?_eq_bind (s : String) : int128? s = (integer? s).bind fit128 := by
  rw [int128?_eq, integer?_eq]
  split
  · rename_i hdigits
    have hall := ((isDigits_eq_true_iff _).1 hdigits).2
    have hread := readInt128_signed hall (isNegative s.toList) (Nat.zero_le _)
    have hzero : signed (isNegative s.toList) 0 = 0 := by
      unfold signed
      split <;> rfl
    rw [hzero] at hread
    rw [hread, Option.bind_some]
  · rfl

/-! ## Canonical numerals -/

theorem digitChar_of_isDigit {c : Char} (h : c.isDigit = true) :
    c.toNat - '0'.toNat < 10 ∧ (c.toNat - '0'.toNat).digitChar = c := by
  have hlt := of_isDigit (p := fun c => c.toNat - '0'.toNat < 10) (by decide) h
  have hchar := of_isDigit (p := fun c => (c.toNat - '0'.toNat).digitChar == c) (by decide) h
  exact ⟨of_decide_eq_true hlt, beq_iff_eq.1 hchar⟩

/-- Digits without a leading zero are those that their value is shown with. By induction from the end:
the last digit is the remainder, and what stands before it has no leading zero either. -/
theorem toDigits_ofDigitChars {digits : List Char} (hne : digits ≠ [])
    (hdigits : ∀ c ∈ digits, c.isDigit = true)
    (hzero : ∀ rest, digits = '0' :: rest → rest = []) :
    Nat.toDigits 10 (Nat.ofDigitChars 10 digits 0) = digits := by
  induction digits using List.reverseRecOn with
  | nil => exact absurd rfl hne
  | append_singleton front c ih =>
    obtain ⟨hc, hchar⟩ := digitChar_of_isDigit (hdigits c (by simp))
    rw [Nat.ofDigitChars_append, Nat.ofDigitChars_cons, Nat.ofDigitChars_nil,
      Nat.toDigits_eq_if (by decide)]
    generalize c.toNat - '0'.toNat = d at hc hchar
    by_cases hfront : front = []
    · subst hfront
      rw [Nat.ofDigitChars_nil, if_pos (by omega), Nat.mul_zero, Nat.zero_add, hchar]
      rfl
    · have hhead : ∀ rest, front ≠ '0' :: rest := by
        rintro rest rfl
        have := hzero (rest ++ [c]) rfl
        simp at this
      have hshown := ih hfront (fun d hd => hdigits d (by simp [hd]))
        fun rest hrest => absurd hrest (hhead rest)
      have hpos : 0 < Nat.ofDigitChars 10 front 0 := by
        rw [Nat.pos_iff_ne_zero]
        intro hvalue
        rw [hvalue] at hshown
        exact hhead [] hshown.symm
      rw [if_neg (by omega), show (10 * Nat.ofDigitChars 10 front 0 + d) / 10 =
        Nat.ofDigitChars 10 front 0 by omega, hshown,
        show (10 * Nat.ofDigitChars 10 front 0 + d) % 10 = d by omega, hchar]

/-- Only zero is shown with a zero in front. -/
theorem eq_nil_of_toDigits {n : Nat} {rest : List Char} (h : Nat.toDigits 10 n = '0' :: rest) :
    rest = [] := by
  induction n using Nat.strongRecOn generalizing rest with
  | ind n ih =>
    rw [Nat.toDigits_eq_if (by decide)] at h
    by_cases hn : n < 10
    · rw [if_pos hn] at h
      exact (List.cons.inj h).2.symm
    · rw [if_neg hn] at h
      have hne : Nat.toDigits 10 (n / 10) ≠ [] := Nat.toDigits_ne_nil
      obtain ⟨c, front, hfront⟩ := List.exists_cons_of_ne_nil hne
      obtain rfl : c = '0' := by
        rw [hfront] at h
        exact (List.cons.inj h).1
      rw [ih (n / 10) (by omega) hfront] at hfront
      have hvalue : Nat.ofDigitChars 10 (Nat.toDigits 10 (n / 10)) 0 = n / 10 :=
        Nat.ofDigitChars_ten_toDigits
      have hzero : n / 10 = 0 := by
        rw [hfront] at hvalue
        exact hvalue.symm
      omega

theorem isDigits_toDigits (n : Nat) : isDigits (Nat.toDigits 10 n) = true := by
  rw [isDigits_eq_true_iff]
  exact ⟨Nat.toDigits_ne_nil, fun c => Nat.isDigit_of_mem_toDigits (by decide) (by decide)⟩

/-- How an integer is shown. -/
theorem toList_toString_signed (negative : Bool) {n : Nat} (h : negative = true → n ≠ 0) :
    (toString (signed negative n)).toList =
      if negative then '-' :: Nat.toDigits 10 n else Nat.toDigits 10 n := by
  cases negative with
  | false =>
    show (Nat.repr n).toList = Nat.toDigits 10 n
    rw [Nat.repr, String.toList_ofList]
  | true =>
    obtain ⟨m, rfl⟩ := Nat.exists_eq_succ_of_ne_zero (h rfl)
    show ("-" ++ Nat.repr (m + 1)).toList = '-' :: Nat.toDigits 10 (m + 1)
    simp [Nat.repr]

theorem exists_signed (z : Int) : ∃ negative n, z = signed negative n ∧ (negative = true → n ≠ 0) := by
  cases z with
  | ofNat n => exact ⟨false, n, rfl, by simp⟩
  | negSucc n => exact ⟨true, n + 1, rfl, by simp⟩

/-- The canonical numeral of an integer is the text that shows it. -/
theorem isCanonical_iff (cs : List Char) (z : Int) :
    IsCanonical cs z ↔ cs = (toString z).toList := by
  constructor
  · intro h
    obtain ⟨hdigits, rfl⟩ := (denotes_iff cs z).1 h.denotes
    rw [isDigits_eq_true_iff] at hdigits
    have hshown := toDigits_ofDigitChars hdigits.1 hdigits.2 h.no_leading_zero
    rcases sign_cases cs with ⟨rest, rfl⟩ | ⟨rest, rfl⟩ | ⟨hplus, hminus⟩
    · have hne : Nat.ofDigitChars 10 rest 0 ≠ 0 := by
        intro hvalue
        rw [dropSign_minus, hvalue] at hshown
        exact h.no_minus_zero (by rw [← hshown]; rfl)
      rw [dropSign_minus] at hshown ⊢
      rw [toList_toString_signed _ fun _ => hne, hshown]
      rfl
    · exact absurd rfl h.no_plus
    · rw [dropSign_of_head hplus hminus] at hshown ⊢
      rw [isNegative_of_head hminus, toList_toString_signed _ (by simp), hshown]
      rfl
  · rintro rfl
    obtain ⟨negative, n, rfl, hn⟩ := exists_signed z
    have hdigits := isDigits_toDigits n
    have hhead := head?_of_isDigits hdigits
    have hvalue : Nat.ofDigitChars 10 (Nat.toDigits 10 n) 0 = n := Nat.ofDigitChars_ten_toDigits
    rw [toList_toString_signed negative hn]
    cases negative with
    | false =>
      refine ⟨?_, hhead.1, fun rest hrest => ?_, fun hzero => ?_⟩
      · have hdenotes := Denotes.unsigned hdigits
        rwa [hvalue] at hdenotes
      · rw [if_neg (by decide), dropSign_of_head hhead.1 hhead.2] at hrest
        exact eq_nil_of_toDigits hrest
      · rw [if_neg (by decide)] at hzero
        exact hhead.2 (by rw [hzero]; rfl)
    | true =>
      refine ⟨?_, by simp, fun rest hrest => eq_nil_of_toDigits hrest, fun hzero => ?_⟩
      · have hdenotes := Denotes.minus hdigits
        rwa [hvalue] at hdenotes
      · rw [(List.cons.inj hzero).2] at hvalue
        exact hn rfl hvalue.symm

end SsisCompiler.Text
