import SsisCompiler.CSharp.Line
import SsisCompiler.Proofs.CSharp.SourceLines
import SsisCompiler.Proofs.Text.Words

/-!
# Texts of a package in a program

A text of a package stands in a program as a verbatim literal or as a line of a documentation comment.
Both spellings can be read back: a literal up to its closing quote, and a comment with its entities.

Results:
* `readVerbatim?_eq_some_iff`: reading a literal from the front of a text.
* `verbatim_delimits`: a literal ends where it was meant to end, whatever its text is.
* `docText_eq_replaceChar`: a documentation text by three replacements one after the other.
* `readEntities_flatMap`: reading the entities of a documentation text.
* `docText_oneSafeLine`: a documentation text is one safe line that can be read back.
-/

namespace SsisCompiler.CSharp

/-! ## Verbatim literals -/

/-- Reads the inside of a verbatim literal: two quotes are one quote of its value, and one quote alone
ends it. The result is the value and what stands behind the literal. -/
def readInside : List Char → Option (List Char × List Char)
  | [] => none
  | '"' :: '"' :: cs => (readInside cs).map fun read => ('"' :: read.1, read.2)
  | '"' :: cs => some ([], cs)
  | c :: cs => (readInside cs).map fun read => (c :: read.1, read.2)

/-- Reads a verbatim literal from the front of a text. -/
def readVerbatim? (text : String) : Option (String × String) :=
  match text.toList with
  | '@' :: '"' :: cs => (readInside cs).map fun read => (String.ofList read.1, String.ofList read.2)
  | _ => none

theorem doubleQuotes_of_ne {c : Char} (hc : c ≠ '"') (cs : List Char) :
    doubleQuotes (c :: cs) = c :: doubleQuotes cs := by
  simp [doubleQuotes, hc]

theorem readInside_of_ne {c : Char} (hc : c ≠ '"') (cs : List Char) :
    readInside (c :: cs) = (readInside cs).map fun read => (c :: read.1, read.2) := by
  rw [readInside]
  · rintro cs rfl
    exact absurd rfl hc
  · exact hc

/-- A quote ends the literal exactly if no quote follows it. -/
theorem readInside_quote {cs : List Char} (h : cs.head? ≠ some '"') :
    readInside ('"' :: cs) = some ([], cs) := by
  rw [readInside]
  rintro rest rfl
  exact h rfl

theorem readInside_doubleQuotes (cs : List Char) {rest : List Char} (h : rest.head? ≠ some '"') :
    readInside (doubleQuotes cs ++ '"' :: rest) = some (cs, rest) := by
  induction cs with
  | nil => exact readInside_quote h
  | cons c cs ih =>
    by_cases hc : c = '"'
    · subst hc
      have htwice : doubleQuotes ('"' :: cs) = '"' :: '"' :: doubleQuotes cs := rfl
      rw [htwice, List.cons_append, List.cons_append, readInside, ih]
      rfl
    · rw [doubleQuotes_of_ne hc, List.cons_append, readInside_of_ne hc, ih]
      rfl

/-- What is read is the inside of a literal with a quote behind it that no quote follows. -/
theorem eq_of_readInside {cs value rest : List Char} (h : readInside cs = some (value, rest)) :
    cs = doubleQuotes value ++ '"' :: rest ∧ rest.head? ≠ some '"' := by
  fun_induction readInside cs generalizing value with
  | case1 => cases h
  | case2 cs ih =>
    obtain ⟨read, hread, heq⟩ := Option.map_eq_some_iff.1 h
    obtain ⟨rfl, rfl⟩ := Prod.mk.inj heq
    obtain ⟨hcs, hrest⟩ := ih hread
    exact ⟨by rw [hcs]; rfl, hrest⟩
  | case3 cs hlone =>
    obtain ⟨rfl, rfl⟩ := Prod.mk.inj (Option.some.inj h)
    refine ⟨rfl, fun hhead => ?_⟩
    obtain ⟨tail, htail⟩ := List.head?_eq_some_iff.1 hhead
    exact hlone tail htail
  | case4 c cs _ hc ih =>
    obtain ⟨read, hread, heq⟩ := Option.map_eq_some_iff.1 h
    obtain ⟨rfl, rfl⟩ := Prod.mk.inj heq
    obtain ⟨hcs, hrest⟩ := ih hread
    exact ⟨by rw [doubleQuotes_of_ne hc, List.cons_append, ← hcs], hrest⟩

theorem toList_verbatim_append (s t : String) :
    (verbatim s ++ t).toList = '@' :: '"' :: (doubleQuotes s.toList ++ '"' :: t.toList) := by
  simp [verbatim]

/-- Reading a literal gives a value and a rest exactly if the text is the literal of the value with the
rest behind it, and the rest does not begin with a quote. -/
theorem readVerbatim?_eq_some_iff (text s t : String) :
    readVerbatim? text = some (s, t) ↔ text = verbatim s ++ t ∧ t.toList.head? ≠ some '"' := by
  constructor
  · intro h
    unfold readVerbatim? at h
    split at h
    · rename_i cs htext
      obtain ⟨read, hread, heq⟩ := Option.map_eq_some_iff.1 h
      obtain ⟨rfl, rfl⟩ := Prod.mk.inj heq
      obtain ⟨hcs, hrest⟩ := eq_of_readInside hread
      rw [← String.toList_inj, toList_verbatim_append, String.toList_ofList, String.toList_ofList,
        htext, hcs]
      exact ⟨rfl, hrest⟩
    · cases h
  · rintro ⟨rfl, ht⟩
    have hinside := readInside_doubleQuotes s.toList ht
    rw [readVerbatim?, toList_verbatim_append]
    simp only [hinside, Option.map_some, String.ofList_toList]

/-- Verbatim literals delimit themselves. Read from the front of a text that begins with the literal of
any text, and goes on with anything but a quote, the value is that text and all that follows is left;
and nothing else than such a text is read as a literal. So different texts have different literals, also
when more follows, and no text ends its literal early. -/
theorem verbatim_delimits :
    (∀ s t : String, t.toList.head? ≠ some '"' → readVerbatim? (verbatim s ++ t) = some (s, t)) ∧
    (∀ text s t : String, readVerbatim? text = some (s, t) →
      text = verbatim s ++ t ∧ t.toList.head? ≠ some '"') ∧
    (∀ s s' t t' : String, t.toList.head? ≠ some '"' → t'.toList.head? ≠ some '"' →
      verbatim s ++ t = verbatim s' ++ t' → s = s' ∧ t = t') ∧
    Function.Injective verbatim := by
  have hread (s t : String) (ht : t.toList.head? ≠ some '"') :
      readVerbatim? (verbatim s ++ t) = some (s, t) :=
    (readVerbatim?_eq_some_iff _ _ _).2 ⟨rfl, ht⟩
  have hunique (s s' t t' : String) (ht : t.toList.head? ≠ some '"')
      (ht' : t'.toList.head? ≠ some '"') (heq : verbatim s ++ t = verbatim s' ++ t') :
      s = s' ∧ t = t' := by
    have hsame := hread s t ht
    rw [heq, hread s' t' ht'] at hsame
    obtain ⟨hs, ht⟩ := Prod.mk.inj (Option.some.inj hsame)
    exact ⟨hs.symm, ht.symm⟩
  refine ⟨hread, fun text s t => (readVerbatim?_eq_some_iff text s t).1, hunique, fun s s' heq => ?_⟩
  exact (hunique s s' "" "" (by simp) (by simp) (by rw [heq])).1

/-- Quotes at both ends of a text and in a row do not end its literal. -/
theorem verbatim_delimits_quotes :
    verbatim "\"a\"\"" = "@\"\"\"a\"\"\"\"\"" ∧
      readVerbatim? (verbatim "\"a\"\"" ++ ");\"") = some ("\"a\"\"", ");\"") :=
  ⟨by decide, verbatim_delimits.1 "\"a\"\"" ");\"" (by decide)⟩

/-! ## Documentation comments -/

/-- Reads the three entities of a documentation text; all else stands for itself. -/
def readEntities : List Char → List Char
  | [] => []
  | '&' :: 'a' :: 'm' :: 'p' :: ';' :: cs => '&' :: readEntities cs
  | '&' :: 'l' :: 't' :: ';' :: cs => '<' :: readEntities cs
  | '&' :: 'g' :: 't' :: ';' :: cs => '>' :: readEntities cs
  | c :: cs => c :: readEntities cs

/-- Each ampersand of a text begins one of the three entities. -/
def EntitiesOnly (cs : List Char) : Prop :=
  ∀ before after, cs = before ++ '&' :: after →
    "amp;".toList <+: after ∨ "lt;".toList <+: after ∨ "gt;".toList <+: after

theorem docChar_cases (c : Char) :
    (c = '&' ∧ docChar c = ['&', 'a', 'm', 'p', ';']) ∨ (c = '<' ∧ docChar c = ['&', 'l', 't', ';']) ∨
      (c = '>' ∧ docChar c = ['&', 'g', 't', ';']) ∨
      ((c ≠ '&' ∧ c ≠ '<' ∧ c ≠ '>') ∧ docChar c = [c]) := by
  unfold docChar
  split
  · exact .inl ⟨rfl, rfl⟩
  · exact .inr (.inl ⟨rfl, rfl⟩)
  · exact .inr (.inr (.inl ⟨rfl, rfl⟩))
  · rename_i hamp hlt hgt
    exact .inr (.inr (.inr ⟨⟨hamp, hlt, hgt⟩, rfl⟩))

theorem readEntities_of_ne {c : Char} (hc : c ≠ '&') (cs : List Char) :
    readEntities (c :: cs) = c :: readEntities cs := by
  rw [readEntities] <;> exact fun _ h => absurd h hc

/-- An entity is read as the character that it was written for. -/
theorem readEntities_docChar (c : Char) (cs : List Char) :
    readEntities (docChar c ++ cs) = c :: readEntities cs := by
  rcases docChar_cases c with ⟨rfl, h⟩ | ⟨rfl, h⟩ | ⟨rfl, h⟩ | ⟨⟨hc, -, -⟩, h⟩
  · rw [h]
    rfl
  · rw [h]
    rfl
  · rw [h]
    rfl
  · rw [h]
    exact readEntities_of_ne hc cs

theorem readEntities_flatMap (cs : List Char) : readEntities (cs.flatMap docChar) = cs := by
  induction cs with
  | nil => rfl
  | cons c cs ih => rw [List.flatMap_cons, readEntities_docChar, ih]

theorem entitiesOnly_cons {c : Char} {cs : List Char} (h : EntitiesOnly cs)
    (hc : c = '&' → "amp;".toList <+: cs ∨ "lt;".toList <+: cs ∨ "gt;".toList <+: cs) :
    EntitiesOnly (c :: cs) := by
  intro before after heq
  cases before with
  | nil =>
    obtain ⟨rfl, rfl⟩ := List.cons_eq_cons.1 heq
    exact hc rfl
  | cons d before => exact h before after (List.cons_eq_cons.1 heq).2

theorem entitiesOnly_append {cs : List Char} (h : EntitiesOnly cs) (word : List Char)
    (hword : '&' ∉ word) :
    EntitiesOnly (word ++ cs) := by
  induction word with
  | nil => exact h
  | cons c word ih =>
    obtain ⟨hc, hword⟩ := not_or.1 (List.mem_cons.not.1 hword)
    exact entitiesOnly_cons (ih hword) fun heq => absurd heq.symm hc

theorem entitiesOnly_docChar (c : Char) {cs : List Char} (h : EntitiesOnly cs) :
    EntitiesOnly (docChar c ++ cs) := by
  rcases docChar_cases c with ⟨-, hspelling⟩ | ⟨-, hspelling⟩ | ⟨-, hspelling⟩ | ⟨⟨hc, -, -⟩, hspelling⟩
  · rw [hspelling]
    exact entitiesOnly_cons (entitiesOnly_append h ['a', 'm', 'p', ';'] (by decide))
      fun _ => .inl (List.prefix_append _ cs)
  · rw [hspelling]
    exact entitiesOnly_cons (entitiesOnly_append h ['l', 't', ';'] (by decide))
      fun _ => .inr (.inl (List.prefix_append _ cs))
  · rw [hspelling]
    exact entitiesOnly_cons (entitiesOnly_append h ['g', 't', ';'] (by decide))
      fun _ => .inr (.inr (List.prefix_append _ cs))
  · rw [hspelling]
    exact entitiesOnly_cons h fun heq => absurd heq hc

theorem entitiesOnly_flatMap (cs : List Char) : EntitiesOnly (cs.flatMap docChar) := by
  induction cs with
  | nil =>
    intro before after heq
    simp at heq
  | cons c cs ih =>
    rw [List.flatMap_cons]
    exact entitiesOnly_docChar c ih

/-- Whether a character may stand in a documentation comment as it is. -/
def isDocSafe (c : Char) : Bool :=
  c != '<' && c != '>' && !isLineTerminator c

theorem isDocSafe_eq_true_iff (c : Char) :
    isDocSafe c = true ↔ c ≠ '<' ∧ c ≠ '>' ∧ isLineTerminator c = false := by
  simp [isDocSafe, and_assoc]

/-- The spelling of a character that ends no line is safe. -/
theorem isDocSafe_of_mem_docChar {c d : Char} (hc : isLineTerminator c = false)
    (h : d ∈ docChar c) : isDocSafe d = true := by
  have hword {word : List Char} (hword : word.all isDocSafe = true) (heq : docChar c = word) :
      isDocSafe d = true :=
    List.all_eq_true.1 hword d (heq ▸ h)
  rcases docChar_cases c with ⟨-, hspelling⟩ | ⟨-, hspelling⟩ | ⟨-, hspelling⟩ | ⟨⟨-, hlt, hgt⟩, hspelling⟩
  · exact hword (by decide) hspelling
  · exact hword (by decide) hspelling
  · exact hword (by decide) hspelling
  · rw [hspelling] at h
    obtain rfl := List.mem_singleton.1 h
    exact (isDocSafe_eq_true_iff d).2 ⟨hlt, hgt, hc⟩

/-- Every character that ends a line is blank. -/
theorem isBlank_of_isLineTerminator {c : Char} (h : isLineTerminator c = true) :
    Text.isBlank c = true := by
  have hall : ['\n', '\r', '\u0085', '\u2028', '\u2029'].all Text.isBlank = true := by decide
  exact List.all_eq_true.1 hall c (List.contains_iff_mem.1 h)

theorem isLineTerminator_of_mem_oneLine {s : String} {c : Char} (h : c ∈ (Text.oneLine s).toList) :
    isLineTerminator c = false := by
  rcases Text.not_isBlank_of_mem_oneLine h with rfl | hc
  · decide
  · rw [← Bool.not_eq_true]
    intro hend
    rw [isBlank_of_isLineTerminator hend] at hc
    cases hc

/-- The same text by three replacements one after the other. The ampersand comes first, so that the
ampersands of the other entities stay. -/
theorem docText_eq_replaceChar (s : String) :
    docText s = Text.replaceChar '>' "&gt;" (Text.replaceChar '<' "&lt;"
      (Text.replaceChar '&' "&amp;" (Text.oneLine s))) := by
  simp only [docText, Text.replaceChar, String.toList_ofList, List.flatMap_assoc]
  congr 2
  funext c
  rcases docChar_cases c with ⟨rfl, h⟩ | ⟨rfl, h⟩ | ⟨rfl, h⟩ | ⟨⟨hamp, hlt, hgt⟩, h⟩
  · rfl
  · rfl
  · rfl
  · simp [h, hamp, hlt, hgt]

/-- A documentation text is one safe line and can be read back. It is what three replacements one after
the other make of the words of the text with single spaces between them; it has no angle bracket and no
end of a line; each of its ampersands begins one of the three entities; and with the entities read, it
is the words that the text is made of, with single spaces between them. -/
theorem docText_oneSafeLine (s : String) :
    docText s = Text.replaceChar '>' "&gt;" (Text.replaceChar '<' "&lt;"
      (Text.replaceChar '&' "&amp;" (" ".intercalate (Text.words s)))) ∧
    (∀ c ∈ (docText s).toList, c ≠ '<' ∧ c ≠ '>' ∧ isLineTerminator c = false) ∧
    (∀ before after, (docText s).toList = before ++ '&' :: after →
      "amp;".toList <+: after ∨ "lt;".toList <+: after ∨ "gt;".toList <+: after) ∧
    (∃ ws, Text.HasWords s.toList ws) ∧
    ∀ ws, Text.HasWords s.toList ws →
      String.ofList (readEntities (docText s).toList) = " ".intercalate (ws.map String.ofList) := by
  have hchars : (docText s).toList = (Text.oneLine s).toList.flatMap docChar := by
    rw [docText, String.toList_ofList]
  refine ⟨docText_eq_replaceChar s, fun d hd => ?_, ?_, Text.exists_hasWords s.toList, fun ws hws => ?_⟩
  · rw [hchars, List.mem_flatMap] at hd
    obtain ⟨c, hc, hd⟩ := hd
    exact (isDocSafe_eq_true_iff d).1
      (isDocSafe_of_mem_docChar (isLineTerminator_of_mem_oneLine hc) hd)
  · rw [hchars]
    exact entitiesOnly_flatMap _
  · rw [hchars, readEntities_flatMap, String.ofList_toList, Text.oneLine, hws.words_eq]

/-- A text with an entity of its own, angle brackets and ends of lines. -/
theorem docText_oneSafeLine_marked :
    docText " &lt;\u2028<b>\r\n" = "&amp;lt; &lt;b&gt;" ∧
      Text.HasWords " &lt;\u2028<b>\r\n".toList [['&', 'l', 't', ';'], ['<', 'b', '>']] ∧
      String.ofList (readEntities (docText " &lt;\u2028<b>\r\n").toList) = "&lt; <b>" := by
  have hwords : Text.HasWords " &lt;\u2028<b>\r\n".toList [['&', 'l', 't', ';'], ['<', 'b', '>']] :=
    (Text.hasWords_iff _ _).2 (by decide)
  exact ⟨by decide, hwords, (docText_oneSafeLine _).2.2.2.2 _ hwords⟩

end SsisCompiler.CSharp
