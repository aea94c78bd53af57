import SsisCompiler.Proofs.Text.Pieces

/-!
# The words of a text

A text is made of words with blanks between them: there may be blanks before the first word and behind
the last one, and there are some between two words. Every text is made of words in exactly one way, and
these are the words that are cut out of it.

Results:
* `exists_hasWords`, `hasWords_iff`: every text is made of words, in exactly one way.
* `HasWords.words_eq`: they are the words that are cut out of it.
* `not_isBlank_of_mem_oneLine`: on one line, the only blank is the space.
-/

namespace SsisCompiler.Text

/-- A text is made of words: blanks, a word and a text made of the other words, which goes on with a
blank or is empty. -/
inductive HasWords : List Char → List (List Char) → Prop
  | blanks {gap : List Char} (hgap : ∀ c ∈ gap, isBlank c = true) : HasWords gap []
  | word {gap word rest : List Char} {others : List (List Char)} (hgap : ∀ c ∈ gap, isBlank c = true)
    (hne : word ≠ []) (hword : ∀ c ∈ word, isBlank c = false)
    (hrest : ∀ c ∈ rest.head?, isBlank c = true) (h : HasWords rest others) :
    HasWords (gap ++ word ++ rest) (word :: others)

/-- A blank in front belongs to the first gap. -/
theorem HasWords.cons_blank {c : Char} (hc : isBlank c = true) {cs : List Char}
    {ws : List (List Char)} (h : HasWords cs ws) : HasWords (c :: cs) ws := by
  cases h with
  | blanks hgap => exact .blanks (List.forall_mem_cons.2 ⟨hc, hgap⟩)
  | @word gap word rest others hgap hne hword hrest h =>
    exact @HasWords.word (c :: gap) word rest others (List.forall_mem_cons.2 ⟨hc, hgap⟩) hne hword
      hrest h

/-- A character that is not blank begins a word, or goes on with the first one. -/
theorem HasWords.exists_cons {c : Char} (hc : isBlank c = false) {cs : List Char}
    {ws : List (List Char)} (h : HasWords cs ws) : ∃ others, HasWords (c :: cs) others := by
  have hone : ∀ d ∈ [c], isBlank d = false := by simp [hc]
  -- a word of its own, where a blank or nothing follows
  have hown (hcs : ∀ d ∈ cs.head?, isBlank d = true) : ∃ others, HasWords (c :: cs) others :=
    ⟨[c] :: ws, @HasWords.word [] [c] cs ws (by simp) (by simp) hone hcs h⟩
  cases h with
  | blanks hgap => exact hown fun d hd => hgap d (List.mem_of_mem_head? hd)
  | @word gap word rest others hgap hne hword hrest h =>
    cases gap with
    | cons d gap =>
      refine hown fun e he => ?_
      obtain rfl : d = e := by simpa using he
      exact hgap d List.mem_cons_self
    | nil =>
      exact ⟨(c :: word) :: others, @HasWords.word [] (c :: word) rest others (by simp) (by simp)
        (List.forall_mem_cons.2 ⟨hc, hword⟩) hrest h⟩

/-- Every text is made of words. -/
theorem exists_hasWords (cs : List Char) : ∃ ws, HasWords cs ws := by
  induction cs with
  | nil => exact ⟨[], .blanks (by simp)⟩
  | cons c cs ih =>
    obtain ⟨ws, h⟩ := ih
    cases hc : isBlank c with
    | true => exact ⟨ws, h.cons_blank hc⟩
    | false => exact h.exists_cons hc

/-! ## Cutting words out -/

/-- The pieces of a text between blanks that are not empty. -/
def wordPieces (cs : List Char) : List (List Char) :=
  (split isBlank cs).filter fun word => !word.isEmpty

theorem words_eq_map (s : String) : words s = (wordPieces s.toList).map String.ofList := rfl

theorem wordPieces_cons {c : Char} (hc : isBlank c = true) (cs : List Char) :
    wordPieces (c :: cs) = wordPieces cs := by
  simp [wordPieces, split, hc]

theorem wordPieces_append {gap : List Char} (hgap : ∀ c ∈ gap, isBlank c = true) (cs : List Char) :
    wordPieces (gap ++ cs) = wordPieces cs := by
  induction gap with
  | nil => rfl
  | cons c gap ih =>
    obtain ⟨hc, hgap⟩ := List.forall_mem_cons.1 hgap
    rw [List.cons_append, wordPieces_cons hc, ih hgap]

/-- A word is cut off where a blank or nothing follows it. -/
theorem wordPieces_word {word rest : List Char} (hne : word ≠ [])
    (hword : ∀ c ∈ word, isBlank c = false) (hrest : ∀ c ∈ rest.head?, isBlank c = true) :
    wordPieces (word ++ rest) = word :: wordPieces rest := by
  cases rest with
  | nil => simp [wordPieces, split_of_not hword, hne, split]
  | cons c rest =>
    have hc : isBlank c = true := hrest c rfl
    rw [wordPieces_cons hc, wordPieces, split_append_cons hc, split_of_not hword,
      List.singleton_append, List.filter_cons_of_pos (by simpa using hne), wordPieces]

theorem HasWords.eq_wordPieces {cs : List Char} {ws : List (List Char)} (h : HasWords cs ws) :
    ws = wordPieces cs := by
  induction h with
  | blanks hgap =>
    have hall := wordPieces_append hgap []
    rw [List.append_nil] at hall
    rw [hall]
    rfl
  | word hgap hne hword hrest _ ih =>
    rw [List.append_assoc, wordPieces_append hgap, wordPieces_word hne hword hrest, ih]

/-- Every text is made of words in exactly one way. -/
theorem hasWords_iff (cs : List Char) (ws : List (List Char)) :
    HasWords cs ws ↔ ws = wordPieces cs := by
  refine ⟨HasWords.eq_wordPieces, ?_⟩
  rintro rfl
  obtain ⟨ws, h⟩ := exists_hasWords cs
  rwa [← h.eq_wordPieces]

/-- The words that a text is made of are those that are cut out of it. -/
theorem HasWords.words_eq {s : String} {ws : List (List Char)} (h : HasWords s.toList ws) :
    words s = ws.map String.ofList := by
  rw [words_eq_map, h.eq_wordPieces]

/-! ## One line -/

theorem not_isBlank_of_mem_words {s word : String} (h : word ∈ words s) :
    ∀ c ∈ word.toList, isBlank c = false := by
  obtain ⟨piece, hpiece, rfl⟩ := List.mem_map.1 h
  rw [String.toList_ofList]
  exact not_of_mem_split (List.mem_of_mem_filter hpiece)

theorem mem_intercalate {texts : List String} {separator : String} {c : Char}
    (h : c ∈ (separator.intercalate texts).toList) :
    c ∈ separator.toList ∨ ∃ text ∈ texts, c ∈ text.toList := by
  induction texts with
  | nil => simp at h
  | cons text texts ih =>
    cases texts with
    | nil => exact .inr ⟨text, List.mem_cons_self, by simpa using h⟩
    | cons next texts =>
      rw [String.intercalate_cons_cons, String.toList_append, String.toList_append, List.mem_append,
        List.mem_append] at h
      rcases h with (h | h) | h
      · exact .inr ⟨text, List.mem_cons_self, h⟩
      · exact .inl h
      · refine (ih h).imp id ?_
        rintro ⟨other, hother, hc⟩
        exact ⟨other, List.mem_cons_of_mem _ hother, hc⟩

/-- On one line, the only blank is the space. -/
theorem not_isBlank_of_mem_oneLine {s : String} {c : Char} (h : c ∈ (oneLine s).toList) :
    c = ' ' ∨ isBlank c = false := by
  rcases mem_intercalate h with h | ⟨word, hword, hc⟩
  · exact .inl (List.mem_singleton.1 h)
  · exact .inr (not_isBlank_of_mem_words hword c hc)

end SsisCompiler.Text
