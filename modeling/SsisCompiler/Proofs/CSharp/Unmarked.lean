import SsisCompiler.CSharp.Identifier
import SsisCompiler.CSharp.Line
import SsisCompiler.CSharp.ValueType
import SsisCompiler.Proofs.Text.Pieces

/-!
# Texts without the mark

A text is unmarked if the word that marks what could not be compiled stands nowhere in it. Where two
texts meet at a character that is no letter of the mark, the mark does not come about; and no spelling
of a text for a program brings it about, because it leaves the letters of the mark alone or puts other
characters in their place.

Results:
* `unmarked_append_of_starts`, `unmarked_append_of_ends`, `unmarked_append_append`: where texts meet.
* `Respells.unmarked`: other spellings of a text.
* `unmarked_verbatim`, `unmarked_sanitize`, `unmarked_docText`, `unmarked_initialValue`: what is
  written of a text without the mark is unmarked.
-/

namespace SsisCompiler.CSharp

/-- That the mark stands nowhere in a text. -/
def Unmarked (text : String) : Prop :=
  Text.holds placeholderMark text = false

instance (text : String) : Decidable (Unmarked text) :=
  inferInstanceAs (Decidable (_ = _))

/-- Whether a character is a letter of the mark. -/
def isMarkLetter (c : Char) : Bool :=
  placeholderMark.toList.contains c

theorem unmarked_iff (text : String) :
    Unmarked text ↔ ¬ placeholderMark.toList <:+: text.toList := by
  rw [← Text.holds_eq_true_iff, Bool.not_eq_true]
  rfl

/-- A piece of an unmarked text. -/
theorem Unmarked.of_isInfix {piece text : String} (h : Unmarked text)
    (hpiece : piece.toList <:+: text.toList) : Unmarked piece := by
  rw [unmarked_iff] at h ⊢
  exact fun hmark => h (hmark.trans hpiece)

/-! ## Where texts meet -/

/-- A word stands in one of two texts if it stands in the two together and does not hold both of the
characters where they meet. -/
theorem infix_or_of_infix_append {word cs ds : List Char} (h : word <:+: cs ++ ds)
    (hmeet : (∀ c ∈ cs.getLast?, c ∉ word) ∨ ∀ d ∈ ds.head?, d ∉ word) :
    word <:+: cs ∨ word <:+: ds := by
  obtain ⟨before, after, heq⟩ := h
  rcases List.append_eq_append_iff.1 heq with ⟨rest, hcs, -⟩ | ⟨right, hword, hds⟩
  · exact Or.inl ⟨before, rest, hcs.symm⟩
  · rcases List.append_eq_append_iff.1 hword with ⟨left, hcs, hsplit⟩ | ⟨middle, -, hright⟩
    · -- the word lies across the place where the texts meet
      by_cases hleft : left = []
      · subst hleft
        rw [List.nil_append] at hsplit
        exact Or.inr ⟨[], after, by rw [hds, hsplit, List.nil_append]⟩
      · by_cases hright : right = []
        · subst hright
          rw [List.append_nil] at hsplit
          exact Or.inl ⟨before, [], by rw [hcs, hsplit, List.append_nil]⟩
        · exfalso
          rcases hmeet with hlast | hhead
          · refine hlast (left.getLast hleft) ?_ ?_
            · rw [hcs, List.getLast?_append_of_ne_nil _ hleft, List.getLast?_eq_getLast_of_ne_nil hleft]
              exact Option.mem_some_self _
            · rw [hsplit]
              exact List.mem_append_left _ (List.getLast_mem hleft)
          · refine hhead (right.head hright) ?_ ?_
            · rw [hds, List.head?_append_of_ne_nil _ hright, List.head?_eq_some_head hright]
              exact Option.mem_some_self _
            · rw [hsplit]
              exact List.mem_append_right _ (List.head_mem hright)
    · refine Or.inr ⟨middle, after, ?_⟩
      rw [hds, hright]

/-- Whether a text begins with no letter of the mark. -/
def startsOutside (text : String) : Bool :=
  text.toList.head?.all fun c => !isMarkLetter c

/-- Whether a text ends with no letter of the mark. -/
def endsOutside (text : String) : Bool :=
  text.toList.getLast?.all fun c => !isMarkLetter c

theorem unmarked_append {s t : String} (h : endsOutside s = true ∨ startsOutside t = true) :
    Unmarked (s ++ t) ↔ Unmarked s ∧ Unmarked t := by
  simp only [unmarked_iff, String.toList_append, ← not_or, not_iff_not]
  constructor
  · intro hmark
    refine infix_or_of_infix_append hmark (h.imp ?_ ?_)
    · intro hends c hc
      rw [endsOutside, Option.mem_def.1 hc] at hends
      simpa [isMarkLetter] using hends
    · intro hstarts c hc
      rw [startsOutside, Option.mem_def.1 hc] at hstarts
      simpa [isMarkLetter] using hstarts
  · rintro (hmark | hmark)
    · exact hmark.trans (List.prefix_append _ _).isInfix
    · exact hmark.trans (List.suffix_append _ _).isInfix

@[simp]
theorem unmarked_append_of_starts {s t : String} (h : startsOutside t = true) :
    Unmarked (s ++ t) ↔ Unmarked s ∧ Unmarked t :=
  unmarked_append (Or.inr h)

@[simp]
theorem unmarked_append_of_ends {s t : String} (h : endsOutside s = true) :
    Unmarked (s ++ t) ↔ Unmarked s ∧ Unmarked t :=
  unmarked_append (Or.inl h)

/-- A text behind another that ends with a fixed text. -/
@[simp]
theorem unmarked_append_append {s fixed t : String} (hne : fixed ≠ "")
    (h : endsOutside fixed = true) :
    Unmarked (s ++ fixed ++ t) ↔ Unmarked (s ++ fixed) ∧ Unmarked t := by
  refine unmarked_append (Or.inl ?_)
  have hfixed : fixed.toList ≠ [] := by simpa using hne
  rw [endsOutside, String.toList_append, List.getLast?_append_of_ne_nil _ hfixed]
  exact h

example (code : String) : Unmarked ("f(" ++ code ++ ", " ++ code ++ ")") ↔ Unmarked code := by
  simp +decide

theorem unmarked_of_outside {text : String} (h : ∀ c ∈ text.toList, isMarkLetter c = false) :
    Unmarked text := by
  rw [unmarked_iff]
  intro hmark
  have hletter := h 'U' (hmark.subset (by decide))
  exact absurd hletter (by decide)

theorem isMarkLetter_of_mem {c : Char} (h : c ∈ placeholderMark.toList) : isMarkLetter c = true :=
  List.contains_iff_mem.2 h

theorem outside_of_all {cs : List Char} (h : cs.all (fun c => !isMarkLetter c) = true) :
    ∀ c ∈ cs, isMarkLetter c = false := by
  intro c hc
  rw [← Bool.not_eq_true']
  exact List.all_eq_true.1 h c hc

theorem isMarkLetter_of_isDigit {c : Char} (h : c.isDigit = true) : isMarkLetter c = false := by
  have hletters : placeholderMark.toList.all (fun d => !d.isDigit) = true := by decide
  rw [← Bool.not_eq_true]
  intro hletter
  have hdigit := List.all_eq_true.1 hletters c (List.contains_iff_mem.1 hletter)
  rw [h] at hdigit
  cases hdigit

theorem outside_repr (n : Nat) : ∀ c ∈ n.repr.toList, isMarkLetter c = false := by
  intro c hc
  rw [Nat.toList_repr] at hc
  exact isMarkLetter_of_isDigit (Nat.isDigit_of_mem_toDigits (by omega) (by omega) hc)

@[simp]
theorem unmarked_repr (n : Nat) : Unmarked n.repr :=
  unmarked_of_outside (outside_repr n)

@[simp]
theorem startsOutside_repr (n : Nat) : startsOutside n.repr = true := by
  rw [startsOutside, Option.all_eq_true]
  intro c hc
  rw [outside_repr n c (List.mem_of_mem_head? hc)]
  rfl

theorem unmarked_getD {text : Option String} {fallback : String} (h : ∀ s ∈ text, Unmarked s)
    (hfallback : Unmarked fallback) : Unmarked (text.getD fallback) := by
  cases text with
  | none => exact hfallback
  | some s => exact h s rfl

theorem unmarked_intercalate {separator : String} (hne : separator ≠ "")
    (hstarts : startsOutside separator = true) (hends : endsOutside separator = true)
    (hseparator : Unmarked separator) {texts : List String} (h : ∀ text ∈ texts, Unmarked text) :
    Unmarked (separator.intercalate texts) := by
  induction texts with
  | nil => exact (by decide : Unmarked "")
  | cons text texts ih =>
    obtain ⟨htext, htexts⟩ := List.forall_mem_cons.1 h
    cases texts with
    | nil => simpa using htext
    | cons next texts =>
      rw [String.intercalate_cons_cons, unmarked_append_append hne hends,
        unmarked_append_of_starts hstarts]
      exact ⟨⟨htext, hseparator⟩, ih htexts⟩

/-! ## Other spellings -/

/-- A text and a spelling of it: each character is kept, or others that are no letters of the mark
stand for it. -/
inductive Respells : List Char → List Char → Prop
  | nil : Respells [] []
  | keep (c : Char) {cs ds : List Char} (h : Respells cs ds) : Respells (c :: cs) (c :: ds)
  | replace (c : Char) (spelling : List Char) {cs ds : List Char} (hne : spelling ≠ [])
    (hspelling : ∀ d ∈ spelling, isMarkLetter d = false) (h : Respells cs ds) :
    Respells (c :: cs) (spelling ++ ds)

theorem Respells.isPrefix_of_isPrefix {cs ds word : List Char} (h : Respells cs ds)
    (hword : ∀ c ∈ word, isMarkLetter c = true) (hbegins : word <+: ds) : word <+: cs := by
  induction h generalizing word with
  | nil => exact hbegins
  | keep c h ih =>
    cases word with
    | nil => exact List.nil_prefix
    | cons d word =>
      obtain ⟨rfl, hrest⟩ := List.cons_prefix_cons.1 hbegins
      exact List.cons_prefix_cons.2 ⟨rfl, ih (List.forall_mem_cons.1 hword).2 hrest⟩
  | @replace c spelling cs ds hne hspelling h ih =>
    cases word with
    | nil => exact List.nil_prefix
    | cons d word =>
      obtain ⟨e, spelling, rfl⟩ := List.exists_cons_of_ne_nil hne
      obtain ⟨rfl, -⟩ := List.cons_prefix_cons.1 hbegins
      have hletter := hword d List.mem_cons_self
      rw [hspelling d List.mem_cons_self] at hletter
      cases hletter

/-- What is no letter of a word may be left out before the word. -/
theorem infix_of_infix_append {word spelling ds : List Char} (hne : word ≠ [])
    (h : ∀ d ∈ spelling, d ∉ word) (hwithin : word <:+: spelling ++ ds) : word <:+: ds := by
  induction spelling with
  | nil => exact hwithin
  | cons d spelling ih =>
    obtain ⟨hd, hspelling⟩ := List.forall_mem_cons.1 h
    rcases List.infix_cons_iff.1 hwithin with hbegins | hwithin
    · obtain ⟨e, word, rfl⟩ := List.exists_cons_of_ne_nil hne
      obtain ⟨rfl, -⟩ := List.cons_prefix_cons.1 hbegins
      exact absurd List.mem_cons_self hd
    · exact ih hspelling hwithin

theorem Respells.isInfix_of_isInfix {cs ds word : List Char} (h : Respells cs ds) (hne : word ≠ [])
    (hword : ∀ c ∈ word, isMarkLetter c = true) (hwithin : word <:+: ds) : word <:+: cs := by
  induction h with
  | nil => exact hwithin
  | @keep c cs ds h ih =>
    rcases List.infix_cons_iff.1 hwithin with hbegins | hwithin
    · exact ((Respells.keep c h).isPrefix_of_isPrefix hword hbegins).isInfix
    · exact (ih hwithin).trans (List.suffix_cons c cs).isInfix
  | @replace c spelling cs ds hspelled hspelling h ih =>
    have hrest : word <:+: ds := by
      refine infix_of_infix_append hne (fun d hd hmem => ?_) hwithin
      have hletter := hword d hmem
      rw [hspelling d hd] at hletter
      cases hletter
    exact (ih hrest).trans (List.suffix_cons c cs).isInfix

/-- The mark does not come about by another spelling. -/
theorem Respells.unmarked {text spelled : String} (h : Respells text.toList spelled.toList)
    (htext : Unmarked text) : Unmarked spelled := by
  rw [unmarked_iff] at htext ⊢
  exact fun hmark => htext (h.isInfix_of_isInfix (by decide) (fun _ => isMarkLetter_of_mem) hmark)

/-! ## Literals and documentation -/

theorem respells_doubleQuotes (cs : List Char) : Respells cs (doubleQuotes cs) := by
  induction cs with
  | nil => exact .nil
  | cons c cs ih =>
    unfold doubleQuotes
    split
    · exact .replace c ['"', '"'] (by decide) (outside_of_all (by decide)) ih
    · exact ih.keep c

@[simp]
theorem unmarked_verbatim {text : String} (h : Unmarked text) : Unmarked (verbatim text) := by
  have hinside : Unmarked (String.ofList (doubleQuotes text.toList)) := by
    refine Respells.unmarked ?_ h
    rw [String.toList_ofList]
    exact respells_doubleQuotes text.toList
  have htext : verbatim text = "@\"" ++ String.ofList (doubleQuotes text.toList) ++ "\"" := by
    rw [← String.toList_inj]
    simp [verbatim]
  rw [htext]
  simp +decide [hinside]

theorem respells_docChar (cs : List Char) : Respells cs (cs.flatMap docChar) := by
  induction cs with
  | nil => exact .nil
  | cons c cs ih =>
    rw [List.flatMap_cons]
    unfold docChar
    split
    · exact .replace _ _ (by decide) (outside_of_all (by decide)) ih
    · exact .replace _ _ (by decide) (outside_of_all (by decide)) ih
    · exact .replace _ _ (by decide) (outside_of_all (by decide)) ih
    · exact ih.keep c

theorem unmarked_oneLine {text : String} (h : Unmarked text) : Unmarked (Text.oneLine text) :=
  unmarked_intercalate (by decide) (by decide) (by decide) (by decide) fun _ hword =>
    h.of_isInfix (Text.infix_of_mem_words hword)

theorem unmarked_docText {text : String} (h : Unmarked text) : Unmarked (docText text) := by
  refine Respells.unmarked ?_ (unmarked_oneLine h)
  rw [docText, String.toList_ofList]
  exact respells_docChar _

/-! ## Identifiers -/

theorem respells_identChar (cs : List Char) : Respells cs (cs.map identChar) := by
  induction cs with
  | nil => exact .nil
  | cons c cs ih =>
    rw [List.map_cons]
    unfold identChar
    split
    · exact ih.keep c
    · exact .replace c ['_'] (by decide) (outside_of_all (by decide)) ih

theorem unmarked_sanitize {text : String} (h : Unmarked text) : Unmarked (sanitize text) := by
  have htrimmed := h.of_isInfix (Text.trim_isInfix text)
  rw [Text.trim] at htrimmed
  unfold sanitize
  cases htext : Text.trimWhile Text.isBlank text.toList with
  | nil => decide
  | cons c cs =>
    rw [htext] at htrimmed
    refine Respells.unmarked ?_ htrimmed
    rw [String.toList_ofList, String.toList_ofList]
    show Respells (c :: cs)
      (if c.isDigit then '_' :: c :: cs.map identChar else (c :: cs).map identChar)
    split
    · rename_i hdigit
      refine .replace c ['_', c] (by simp) ?_ (respells_identChar cs)
      simp [isMarkLetter_of_isDigit hdigit, (by decide : isMarkLetter '_' = false)]
    · exact respells_identChar (c :: cs)

theorem unmarked_variableIdent {text : String} (h : Unmarked text) :
    Unmarked (variableIdent text) := by
  have hident := unmarked_sanitize h
  unfold variableIdent
  dsimp only
  split
  · simp +decide [hident]
  · split
    · simp +decide [hident]
    · exact hident

/-! ## Types and values -/

theorem unmarked_typeName (t : ValueType) : Unmarked t.name := by
  cases t with
  | integer t => cases t <;> decide
  | real t => cases t <;> decide
  | _ => decide

theorem unmarked_defaultOf {typeName : String} (h : Unmarked typeName) :
    Unmarked (ValueType.defaultOf typeName) := by
  unfold ValueType.defaultOf
  simp +decide [h]

theorem unmarked_integerLiteral (t : IntegerType) (text : Option String) :
    Unmarked (ValueType.integerLiteral t text) := by
  have hdefault := unmarked_defaultOf (unmarked_typeName (.integer t))
  unfold ValueType.integerLiteral
  split
  · rename_i n _
    split
    · cases n with
      | ofNat n => exact unmarked_repr n
      | negSucc n =>
        show Unmarked ("-" ++ toString (n + 1))
        simp +decide
    · exact hdefault
  · exact hdefault

theorem unmarked_realLiteral (t : RealType) {text : Option String}
    (h : ∀ s ∈ text, Unmarked s) : Unmarked (ValueType.realLiteral t text) := by
  have hdefault := unmarked_defaultOf (unmarked_typeName (.real t))
  unfold ValueType.realLiteral
  split
  · rename_i s
    split
    · have hsuffix : startsOutside t.suffix = true ∧ Unmarked t.suffix := by
        cases t <;> decide
      rw [unmarked_append_of_starts hsuffix.1]
      exact ⟨h s rfl, hsuffix.2⟩
    · exact hdefault
  · exact hdefault

theorem unmarked_initialValue (t : ValueType) {stored : Option String}
    (h : ∀ text ∈ stored, Unmarked text) : Unmarked (t.initialValue stored) := by
  have htrimmed : ∀ text ∈ (stored.map Text.trim).filter (!·.isEmpty), Unmarked text := by
    intro text htext
    obtain ⟨original, horiginal, rfl⟩ :=
      Option.map_eq_some_iff.1 (Option.filter_eq_some_iff.1 htext).1
    exact (h original horiginal).of_isInfix (Text.trim_isInfix original)
  unfold ValueType.initialValue
  dsimp only
  generalize (stored.map Text.trim).filter (!·.isEmpty) = text at htrimmed
  cases t <;> dsimp only
  case string =>
    cases stored with
    | none => decide
    | some stored => exact unmarked_verbatim (h stored rfl)
  case bool =>
    unfold ValueType.boolLiteral
    split <;> decide
  case integer t => exact unmarked_integerLiteral t text
  case real t => exact unmarked_realLiteral t htrimmed
  case dateTime | guid =>
    cases text with
    | none => decide
    | some text =>
      have hliteral := unmarked_verbatim (htrimmed text rfl)
      simp +decide [hliteral]
  case object => decide
  case dynamic =>
    cases stored with
    | none => decide
    | some stored => exact unmarked_verbatim (h stored rfl)

end SsisCompiler.CSharp
