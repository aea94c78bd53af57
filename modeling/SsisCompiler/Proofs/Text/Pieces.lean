import Mathlib.Data.List.DropRight
import Mathlib.Data.List.Infix
import SsisCompiler.Text.Basic
import SsisCompiler.Text.Decimal

/-!
# Pieces of a text

Trimming, splitting and searching give pieces of a text: what they give stands in the text as it is.

Results:
* `of_isBlank`, `of_isDigit`: what holds of a list of characters holds of every blank, of every digit.
* `holds_eq_true_iff`: a piece is found exactly if it stands in the text.
* `split_append_cons`: splitting at a character of the class splits what stands before and after it.
* `mem_split_iff`: the pieces of a text are what stands between characters of the class.
* `infix_of_mem_split`, `infix_of_mem_words`, `infix_of_mem_lines`, `infix_of_splitOnce`,
  `trim_isInfix`: what is cut out of a text stands in it.
-/

namespace SsisCompiler.Text

/-! ## Blanks -/

/-- The code points of the blanks. -/
def blankCodes : List Nat :=
  [0x09, 0x0A, 0x0B, 0x0C, 0x0D, 0x20, 0x85, 0xA0, 0x1680, 0x2000, 0x2001, 0x2002, 0x2003, 0x2004,
    0x2005, 0x2006, 0x2007, 0x2008, 0x2009, 0x200A, 0x2028, 0x2029, 0x202F, 0x205F, 0x3000]

/-- What holds of these blanks holds of every blank. -/
theorem of_isBlank {p : Char → Bool} (hp : blankCodes.all (fun n => p (Char.ofNat n)) = true) {c : Char}
    (h : isBlank c = true) : p c = true := by
  have hmem : c.toNat ∈ blankCodes := by
    simp only [isBlank, Bool.or_eq_true, Bool.and_eq_true, decide_eq_true_eq, beq_iff_eq] at h
    simp only [blankCodes, List.mem_cons, List.not_mem_nil, or_false]
    omega
  have hc := List.all_eq_true.1 hp c.toNat hmem
  rwa [Char.ofNat_toNat] at hc

/-! ## Digits -/

/-- What holds of the ten digits holds of every digit. -/
theorem of_isDigit {p : Char → Bool}
    (hp : (List.range' 48 10).all (fun n => p (Char.ofNat n)) = true) {c : Char}
    (h : c.isDigit = true) : p c = true := by
  simp only [Char.isDigit, Bool.and_eq_true, decide_eq_true_eq] at h
  have hlow : 48 ≤ c.toNat := UInt32.le_iff_toNat_le.1 h.1
  have hhigh : c.toNat ≤ 57 := UInt32.le_iff_toNat_le.1 h.2
  have hc := List.all_eq_true.1 hp c.toNat (List.mem_range'_1.2 ⟨hlow, by omega⟩)
  rwa [Char.ofNat_toNat] at hc

theorem isDigits_eq_true_iff (cs : List Char) :
    isDigits cs = true ↔ cs ≠ [] ∧ ∀ c ∈ cs, c.isDigit = true := by
  simp [isDigits]

/-! ## Searching -/

theorem breakOn_eq_some {piece cs before after : List Char}
    (h : breakOn piece cs = some (before, after)) : cs = before ++ piece ++ after := by
  induction cs generalizing before after with
  | nil =>
    unfold breakOn at h
    split at h
    · rename_i hempty
      obtain rfl := List.isEmpty_iff.1 hempty
      cases h
      rfl
    · cases h
  | cons c cs ih =>
    unfold breakOn at h
    split at h
    · rename_i hpiece
      cases h
      rw [List.nil_append]
      exact (List.prefix_iff_eq_append.1 (List.isPrefixOf_iff_prefix.1 hpiece)).symm
    · obtain ⟨⟨before, after⟩, hrest, heq⟩ := Option.map_eq_some_iff.1 h
      cases heq
      rw [ih hrest]
      rfl

theorem isSome_breakOn_of_isInfix {piece cs : List Char} (h : piece <:+: cs) :
    (breakOn piece cs).isSome = true := by
  induction cs with
  | nil =>
    obtain rfl := List.infix_nil.1 h
    rfl
  | cons c cs ih =>
    unfold breakOn
    split
    · rfl
    · rename_i hpiece
      rw [Option.isSome_map]
      refine ih ?_
      rcases List.infix_cons_iff.1 h with h | h
      · exact absurd (List.isPrefixOf_iff_prefix.2 h) hpiece
      · exact h

theorem breakOn_eq_none {c : Char} {cs : List Char} (h : c ∉ cs) : breakOn [c] cs = none := by
  cases hbreak : breakOn [c] cs with
  | none => rfl
  | some cut =>
    rw [breakOn_eq_some hbreak] at h
    simp at h

/-- A piece is found where it stands first; its first character does not stand before it. -/
theorem breakOn_append {c : Char} {before : List Char} (h : c ∉ before) (piece after : List Char) :
    breakOn (c :: piece) (before ++ c :: piece ++ after) = some (before, after) := by
  induction before with
  | nil =>
    have hstarts : (c :: piece).isPrefixOf (c :: piece ++ after) = true :=
      List.isPrefixOf_iff_prefix.2 (List.prefix_append _ _)
    rw [List.nil_append, List.cons_append, breakOn, ← List.cons_append, hstarts, if_pos rfl,
      List.drop_left]
  | cons d before ih =>
    obtain ⟨hd, hbefore⟩ := not_or.1 (List.mem_cons.not.1 h)
    have hstarts : (c :: piece).isPrefixOf (d :: (before ++ c :: piece ++ after)) = false := by
      simp [List.isPrefixOf, hd]
    simp only [List.cons_append, breakOn] at ih hstarts ⊢
    rw [hstarts, ih hbefore]
    rfl

/-- A piece is found exactly if it stands in the text. -/
theorem holds_eq_true_iff (piece text : String) :
    holds piece text = true ↔ piece.toList <:+: text.toList := by
  constructor
  · intro h
    obtain ⟨⟨before, after⟩, hbreak⟩ := Option.isSome_iff_exists.1 h
    exact ⟨before, after, (breakOn_eq_some hbreak).symm⟩
  · exact isSome_breakOn_of_isInfix

theorem infix_of_splitOnce {piece text before after : String}
    (h : splitOnce piece text = some (before, after)) :
    before.toList <:+: text.toList ∧ after.toList <:+: text.toList := by
  obtain ⟨⟨cs, ds⟩, hbreak, heq⟩ := Option.map_eq_some_iff.1 h
  cases heq
  rw [String.toList_ofList, String.toList_ofList, breakOn_eq_some hbreak, List.append_assoc]
  exact ⟨(List.prefix_append _ _).isInfix,
    ((List.suffix_append _ _).trans (List.suffix_append _ _)).isInfix⟩

theorem afterLast_isInfix (c : Char) (s : String) : (afterLast c s).toList <:+: s.toList := by
  rw [afterLast, String.toList_ofList]
  exact (List.reverse_prefix.1 (by simpa using List.takeWhile_prefix _)).isInfix

theorem afterLastPiece_isInfix (piece cs : List Char) : afterLastPiece piece cs <:+: cs := by
  unfold afterLastPiece
  split
  · rename_i after before hbreak
    have heq := congrArg List.reverse (breakOn_eq_some hbreak)
    rw [List.reverse_reverse, List.reverse_append] at heq
    rw [heq, List.reverse_append]
    exact ((List.suffix_append _ _).trans (List.suffix_append _ _)).isInfix
  · exact List.infix_rfl

/-- What stands behind the last occurrence of a piece does not hold the piece's last character. -/
theorem afterLastPiece_append {c : Char} {after : List Char} (h : c ∉ after)
    (before piece : List Char) :
    afterLastPiece (piece ++ [c]) (before ++ (piece ++ [c]) ++ after) = after := by
  have hfound := breakOn_append (mt List.mem_reverse.1 h) piece.reverse before.reverse
  have hpiece : (piece ++ [c]).reverse = c :: piece.reverse := by simp
  have htext : (before ++ (piece ++ [c]) ++ after).reverse =
      after.reverse ++ c :: piece.reverse ++ before.reverse := by simp
  simp only [afterLastPiece, hpiece, htext, hfound, List.reverse_reverse]

/-! ## Trimming -/

theorem dropEndWhile_isPrefix (p : Char → Bool) (cs : List Char) : dropEndWhile p cs <+: cs := by
  unfold dropEndWhile
  rw [← List.reverse_suffix, List.reverse_reverse]
  exact List.dropWhile_suffix p

theorem trimWhile_isInfix (p : Char → Bool) (cs : List Char) : trimWhile p cs <:+: cs :=
  (dropEndWhile_isPrefix p _).isInfix.trans (List.dropWhile_suffix p).isInfix

theorem dropEndWhile_dropEndWhile (p : Char → Bool) (cs : List Char) :
    dropEndWhile p (dropEndWhile p cs) = dropEndWhile p cs := by
  rw [dropEndWhile, dropEndWhile, List.reverse_reverse, List.dropWhile_idempotent]

/-- Trimming again changes nothing. -/
theorem trimWhile_trimWhile (p : Char → Bool) (cs : List Char) :
    trimWhile p (trimWhile p cs) = trimWhile p cs := by
  have hfront : (dropEndWhile p (cs.dropWhile p)).dropWhile p = dropEndWhile p (cs.dropWhile p) := by
    cases hrest : dropEndWhile p (cs.dropWhile p) with
    | nil => rfl
    | cons c rest =>
      -- what is left begins as the text does without the front
      obtain ⟨behind, hbehind⟩ := dropEndWhile_isPrefix p (cs.dropWhile p)
      rw [hrest, List.cons_append] at hbehind
      have hc := List.head?_dropWhile_not p cs
      rw [← hbehind, List.head?_cons] at hc
      rw [List.dropWhile_cons, if_neg (by simp [hc])]
  rw [trimWhile, trimWhile, hfront, dropEndWhile_dropEndWhile]

/-- Trimming takes off what is of the class behind what is not. -/
theorem trimWhile_append {p : Char → Bool} {cs back : List Char} (hcs : ∀ c ∈ cs, p c = false)
    (hback : ∀ c ∈ back, p c = true) : trimWhile p (cs ++ back) = cs := by
  cases cs with
  | nil =>
    rw [List.nil_append, trimWhile, List.dropWhile_eq_nil_iff.2 hback]
    rfl
  | cons c cs =>
    have hend : (c :: cs).reverse.dropWhile p = (c :: cs).reverse := by
      rw [List.dropWhile_eq_self_iff]
      intro hlength
      rw [hcs _ (List.mem_reverse.1 (List.getElem_mem hlength))]
      simp
    rw [trimWhile, List.cons_append, List.dropWhile_cons, if_neg (by simp [hcs c]), ← List.cons_append,
      dropEndWhile, List.reverse_append, List.dropWhile_append_of_pos (by simpa using hback), hend,
      List.reverse_reverse]

theorem mem_dropWhile {p : Char → Bool} {cs : List Char} {c : Char} (h : c ∈ cs) (hc : p c = false) :
    c ∈ cs.dropWhile p := by
  rw [← List.takeWhile_append_dropWhile (p := p) (l := cs), List.mem_append] at h
  rcases h with h | h
  · rw [List.mem_takeWhile_imp h] at hc
    cases hc
  · exact h

/-- Trimming keeps every character that is not of the class. -/
theorem mem_trimWhile {p : Char → Bool} {cs : List Char} {c : Char} (h : c ∈ cs)
    (hc : p c = false) : c ∈ trimWhile p cs := by
  rw [trimWhile, dropEndWhile, List.mem_reverse]
  exact mem_dropWhile (List.mem_reverse.2 (mem_dropWhile h hc)) hc

theorem trim_isInfix (s : String) : (trim s).toList <:+: s.toList := by
  rw [trim, String.toList_ofList]
  exact trimWhile_isInfix isBlank s.toList

theorem trim_trim (s : String) : trim (trim s) = trim s := by
  rw [trim, trim, String.toList_ofList, trimWhile_trimWhile]

theorem dropWhile_append_cons {p : Char → Bool} {c : Char} (hc : p c = false)
    (before after : List Char) :
    (before ++ c :: after).dropWhile p = before.dropWhile p ++ c :: after := by
  rw [List.dropWhile_append]
  split
  · rename_i hempty
    rw [List.isEmpty_iff.1 hempty, List.dropWhile_cons, if_neg (by simp [hc]), List.nil_append]
  · rfl

theorem dropEndWhile_append_cons {p : Char → Bool} {c : Char} (hc : p c = false)
    (before after : List Char) :
    dropEndWhile p (before ++ c :: after) = before ++ c :: dropEndWhile p after := by
  have hreverse : (before ++ c :: after).reverse = after.reverse ++ c :: before.reverse := by simp
  rw [dropEndWhile, hreverse, dropWhile_append_cons hc, List.reverse_append, List.reverse_cons,
    List.reverse_reverse, List.append_assoc, List.singleton_append, dropEndWhile]

/-- Before a character that stays, only the front is trimmed, and behind it only the end. -/
theorem trimWhile_append_cons {p : Char → Bool} {c : Char} (hc : p c = false)
    (before after : List Char) :
    trimWhile p (before ++ c :: after) = before.dropWhile p ++ c :: dropEndWhile p after := by
  rw [trimWhile, dropWhile_append_cons hc, dropEndWhile_append_cons hc]

theorem trimWhile_dropWhile (p : Char → Bool) (cs : List Char) :
    trimWhile p (cs.dropWhile p) = trimWhile p cs := by
  rw [trimWhile, List.dropWhile_idempotent, trimWhile]

theorem trimWhile_dropEndWhile (p : Char → Bool) (cs : List Char) :
    trimWhile p (dropEndWhile p cs) = trimWhile p cs := by
  by_cases hall : ∀ c ∈ cs, p c = true
  · have hend : dropEndWhile p cs = [] := by
      rw [dropEndWhile, List.dropWhile_eq_nil_iff.2 (by simpa using hall), List.reverse_nil]
    have hfront : cs.dropWhile p = [] := List.dropWhile_eq_nil_iff.2 hall
    rw [hend, trimWhile, trimWhile, hfront, List.dropWhile_nil]
  · -- around a character that stays, the two ends are trimmed apart from each other
    push Not at hall
    obtain ⟨c, hmem, hc⟩ := hall
    rw [ne_eq, Bool.not_eq_true] at hc
    obtain ⟨before, after, rfl⟩ := List.append_of_mem hmem
    rw [dropEndWhile_append_cons hc, trimWhile_append_cons hc, trimWhile_append_cons hc,
      dropEndWhile_dropEndWhile]

/-- Trimming a text first trims what stands before and behind a character that stays. -/
theorem breakOn_trimWhile {p : Char → Bool} {c : Char} (hc : p c = false) (cs : List Char) :
    breakOn [c] (trimWhile p cs) =
      (breakOn [c] cs).map fun cut => (cut.1.dropWhile p, dropEndWhile p cut.2) := by
  by_cases hmem : c ∈ cs
  · obtain ⟨before, after, rfl, hbefore⟩ := List.eq_append_cons_of_mem hmem
    have hfront : c ∉ before.dropWhile p := fun h => hbefore ((List.dropWhile_suffix p).subset h)
    have hcut := breakOn_append hbefore [] after
    have htrimmed := breakOn_append hfront [] (dropEndWhile p after)
    rw [List.append_assoc, List.singleton_append] at hcut htrimmed
    rw [trimWhile_append_cons hc, htrimmed, hcut, Option.map_some]
  · have htrimmed : c ∉ trimWhile p cs := fun h => hmem ((trimWhile_isInfix p cs).subset h)
    rw [breakOn_eq_none hmem, breakOn_eq_none htrimmed, Option.map_none]

/-! ## Splitting -/

theorem split_cons_of_neg {p : Char → Bool} {c : Char} (hc : p c = false) (cs : List Char) :
    ∃ piece rest, split p cs = piece :: rest ∧ split p (c :: cs) = (c :: piece) :: rest := by
  obtain ⟨piece, rest, h⟩ := List.exists_cons_of_ne_nil (split_ne_nil p cs)
  exact ⟨piece, rest, h, by simp [split, hc, h]⟩

/-- A character of the class ends a piece. -/
theorem split_append_cons {p : Char → Bool} {c : Char} (hc : p c = true) (cs ds : List Char) :
    split p (cs ++ c :: ds) = split p cs ++ split p ds := by
  induction cs with
  | nil => simp [split, hc]
  | cons d cs ih =>
    cases hd : p d with
    | true => simp [split, hd, ih]
    | false =>
      obtain ⟨piece, rest, h, hcons⟩ := split_cons_of_neg hd cs
      rw [hcons, List.cons_append]
      simp [split, hd, ih, h]

/-- What stands before the first character of the class belongs to the first piece. -/
theorem split_append_of_not {p : Char → Bool} {cs : List Char} (hcs : ∀ c ∈ cs, p c = false)
    {ds first : List Char} {rest : List (List Char)} (h : split p ds = first :: rest) :
    split p (cs ++ ds) = (cs ++ first) :: rest := by
  induction cs with
  | nil => exact h
  | cons c cs ih =>
    obtain ⟨hc, hcs⟩ := List.forall_mem_cons.1 hcs
    rw [List.cons_append, split, hc, ih hcs]
    rfl

theorem split_of_not {p : Char → Bool} {cs : List Char} (hcs : ∀ c ∈ cs, p c = false) :
    split p cs = [cs] := by
  have h : split p [] = [] :: [] := rfl
  simpa using split_append_of_not hcs h

/-- The first piece is the beginning of the text, and the others stand behind it. -/
theorem split_eq_cons {p : Char → Bool} {cs first : List Char} {rest : List (List Char)}
    (h : split p cs = first :: rest) : first <+: cs ∧ ∀ piece ∈ rest, piece <:+: cs := by
  induction cs generalizing first rest with
  | nil =>
    cases h
    simp
  | cons c cs ih =>
    cases hc : p c with
    | true =>
      simp only [split, hc, if_true] at h
      cases h
      refine ⟨List.nil_prefix, fun piece hpiece => ?_⟩
      obtain ⟨head, tail, heq⟩ := List.exists_cons_of_ne_nil (split_ne_nil p cs)
      obtain ⟨hhead, htail⟩ := ih heq
      rw [heq] at hpiece
      have hcs : piece <:+: cs := by
        rcases List.mem_cons.1 hpiece with rfl | hpiece
        · exact hhead.isInfix
        · exact htail piece hpiece
      exact hcs.trans (List.suffix_cons c cs).isInfix
    | false =>
      obtain ⟨head, tail, heq, hcons⟩ := split_cons_of_neg hc cs
      rw [hcons] at h
      cases h
      obtain ⟨hhead, htail⟩ := ih heq
      exact ⟨(List.cons_prefix_cons.2 ⟨rfl, hhead⟩), fun piece hpiece =>
        (htail piece hpiece).trans (List.suffix_cons c cs).isInfix⟩

theorem infix_of_mem_split {p : Char → Bool} {cs piece : List Char} (h : piece ∈ split p cs) :
    piece <:+: cs := by
  obtain ⟨first, rest, heq⟩ := List.exists_cons_of_ne_nil (split_ne_nil p cs)
  obtain ⟨hfirst, hrest⟩ := split_eq_cons heq
  rw [heq] at h
  rcases List.mem_cons.1 h with rfl | h
  · exact hfirst.isInfix
  · exact hrest piece h

theorem not_of_mem_split {p : Char → Bool} {cs piece : List Char} (h : piece ∈ split p cs) :
    ∀ c ∈ piece, p c = false := by
  induction cs generalizing piece with
  | nil => simp_all [split]
  | cons c cs ih =>
    cases hc : p c with
    | true =>
      simp only [split, hc, if_true] at h
      rcases List.mem_cons.1 h with rfl | h
      · simp
      · exact ih h
    | false =>
      obtain ⟨head, tail, heq, hcons⟩ := split_cons_of_neg hc cs
      rw [hcons] at h
      rw [heq] at ih
      rcases List.mem_cons.1 h with rfl | h
      · exact List.forall_mem_cons.2 ⟨hc, ih List.mem_cons_self⟩
      · exact ih (List.mem_cons_of_mem _ h)

theorem split_map (p : Char → Bool) (f : Char → Char) (cs : List Char) :
    split p (cs.map f) = (split (fun c => p (f c)) cs).map (List.map f) := by
  induction cs with
  | nil => rfl
  | cons c cs ih =>
    cases hc : p (f c) with
    | true => simp [split, hc, ih]
    | false =>
      obtain ⟨piece, rest, h, hcons⟩ := split_cons_of_neg (p := fun c => p (f c)) hc cs
      simp [split, hc, ih, h]

/-- Each piece stands between two characters of the class, or at an end of the text. -/
theorem exists_of_split_eq {p : Char → Bool} {cs piece : List Char} {front back : List (List Char)}
    (h : split p cs = front ++ piece :: back) :
    ∃ before after, cs = before ++ piece ++ after ∧ (front = [] ↔ before = []) ∧
      (∀ c ∈ before.getLast?, p c = true) ∧ ∀ c ∈ after.head?, p c = true := by
  induction cs generalizing front piece with
  | nil =>
    obtain ⟨rfl, rfl, -⟩ : front = [] ∧ piece = [] ∧ back = [] := by
      cases front <;> simp_all [split]
    exact ⟨[], [], rfl, by simp, by simp, by simp⟩
  | cons c cs ih =>
    cases hc : p c with
    | true =>
      simp only [split, hc, if_true] at h
      cases front with
      | nil =>
        obtain ⟨rfl, -⟩ := List.cons_eq_cons.1 h
        exact ⟨[], c :: cs, rfl, by simp, by simp, by simp [hc]⟩
      | cons first front =>
        obtain ⟨before, after, rfl, -, hbefore, hafter⟩ := ih (List.cons_eq_cons.1 h).2
        refine ⟨c :: before, after, rfl, by simp, ?_, hafter⟩
        cases before with
        | nil => simp [hc]
        | cons d before => simpa [List.getLast?_cons_cons] using hbefore
    | false =>
      obtain ⟨head, tail, heq, hcons⟩ := split_cons_of_neg hc cs
      rw [hcons] at h
      cases front with
      | nil =>
        obtain ⟨rfl, rfl⟩ := List.cons_eq_cons.1 h
        have hfirst : split p cs = [] ++ head :: tail := heq
        obtain ⟨before, after, rfl, hnil, -, hafter⟩ := ih hfirst
        obtain rfl := hnil.1 rfl
        exact ⟨[], after, rfl, by simp, by simp, hafter⟩
      | cons first front =>
        obtain ⟨-, rfl⟩ := List.cons_eq_cons.1 h
        have hlater : split p cs = (head :: front) ++ piece :: back := heq
        obtain ⟨before, after, rfl, hnil, hbefore, hafter⟩ := ih hlater
        -- an earlier piece ends before this one, so something of the class stands in between
        refine ⟨c :: before, after, rfl, by simp, ?_, hafter⟩
        cases before with
        | nil => exact absurd (hnil.2 rfl) (by simp)
        | cons d before => simpa [List.getLast?_cons_cons] using hbefore

/-- The pieces of a text are what stands, free of the class, between two characters of the class. -/
theorem mem_split_iff {p : Char → Bool} {cs piece : List Char} :
    piece ∈ split p cs ↔ (∀ c ∈ piece, p c = false) ∧
      ∃ before after, cs = before ++ piece ++ after ∧ (∀ c ∈ before.getLast?, p c = true) ∧
        ∀ c ∈ after.head?, p c = true := by
  constructor
  · intro h
    obtain ⟨front, back, heq⟩ := List.append_of_mem h
    obtain ⟨before, after, hcs, -, hbefore, hafter⟩ := exists_of_split_eq heq
    exact ⟨not_of_mem_split h, before, after, hcs, hbefore, hafter⟩
  · rintro ⟨hpiece, before, after, rfl, hbefore, hafter⟩
    have hrest : piece ∈ split p (piece ++ after) := by
      cases after with
      | nil => simp [split_of_not hpiece]
      | cons d after =>
        rw [split_append_cons (hafter d (by simp)), split_of_not hpiece]
        exact List.mem_append_left _ (List.mem_singleton_self piece)
    rcases List.eq_nil_or_concat before with rfl | ⟨front, d, rfl⟩
    · exact hrest
    · rw [List.concat_eq_append, List.append_assoc, List.append_assoc, List.singleton_append,
        split_append_cons (hbefore d (by simp))]
      exact List.mem_append_right _ hrest

theorem infix_of_mem_words {s word : String} (h : word ∈ words s) : word.toList <:+: s.toList := by
  obtain ⟨piece, hpiece, rfl⟩ := List.mem_map.1 h
  rw [String.toList_ofList]
  exact infix_of_mem_split (List.mem_of_mem_filter hpiece)

/-! ## Lines -/

theorem dropFinalReturn_isPrefix (line : List Char) : dropFinalReturn line <+: line := by
  unfold dropFinalReturn
  split
  · exact List.dropLast_prefix line
  · exact List.prefix_rfl

/-- A word at the beginning of a line stays. -/
theorem prefix_dropFinalReturn {word cs : List Char} (h : '\r' ∉ word) :
    word <+: dropFinalReturn (word ++ cs) := by
  unfold dropFinalReturn
  split
  · rename_i hlast
    have hne : cs ≠ [] := by
      rintro rfl
      rw [List.append_nil] at hlast
      exact h (List.mem_of_getLast? hlast)
    rw [List.dropLast_append_of_ne_nil hne]
    exact List.prefix_append _ _
  · exact List.prefix_append _ _

theorem exists_of_mem_linesOfPieces {pieces : List (List Char)} {line : List Char}
    (h : line ∈ linesOfPieces pieces) : ∃ piece ∈ pieces, line <+: piece := by
  fun_induction linesOfPieces pieces with
  | case1 => cases h
  | case2 last hempty => cases h
  | case3 last hempty =>
    obtain rfl := List.mem_singleton.1 h
    exact ⟨line, List.mem_cons_self, List.prefix_rfl⟩
  | case4 piece next rest ih =>
    rcases List.mem_cons.1 h with rfl | h
    · exact ⟨piece, List.mem_cons_self, dropFinalReturn_isPrefix piece⟩
    · obtain ⟨other, hother, hline⟩ := ih h
      exact ⟨other, List.mem_cons_of_mem _ hother, hline⟩

/-- A line stands in its text and has no line feed. -/
theorem infix_of_mem_lines {s line : String} (h : line ∈ lines s) :
    line.toList <:+: s.toList ∧ '\n' ∉ line.toList := by
  obtain ⟨cs, hcs, rfl⟩ := List.mem_map.1 h
  obtain ⟨piece, hpiece, hbegins⟩ := exists_of_mem_linesOfPieces hcs
  rw [String.toList_ofList]
  refine ⟨hbegins.isInfix.trans (infix_of_mem_split hpiece), fun hmem => ?_⟩
  have hnot := not_of_mem_split hpiece '\n' (hbegins.subset hmem)
  cases hnot

end SsisCompiler.Text
