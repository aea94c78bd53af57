import Mathlib.Tactic.SplitIfs
import SsisCompiler.Markup.Document
import SsisCompiler.Proofs.Text.Pieces

/-!
# Where the parts of a document begin

Reading goes from left to right: every step leads from a cursor to one further on, and the place moves
along with what is stepped over. So the places that are kept with tags, comments and instructions are
those of their first characters, and they increase from one to the next.

Results:
* `Cursor.Leads`: what every reading step does to a cursor.
* `readsToken_token?`: a token begins where the cursor stands.
* `openings_nest?`, `openings_resolve?`: building the element tree keeps the parts and their order.
* `wellPlaced_ofText?`: the parts of a document stand where their places say, in increasing order.
-/

namespace SsisCompiler.Markup

/-! ## Order of places -/

namespace Position

/-- The order of places: by rows, and in a row by columns. -/
def Before (a b : Position) : Prop :=
  a.row < b.row ∨ a.row = b.row ∧ a.column < b.column

instance (a b : Position) : Decidable (a.Before b) :=
  inferInstanceAs (Decidable (_ ∨ _))

theorem Before.trans {a b c : Position} (hab : a.Before b) (hbc : b.Before c) : a.Before c := by
  unfold Before at *
  omega

theorem Before.ne {a b : Position} (h : a.Before b) : a ≠ b := by
  rintro rfl
  unfold Before at h
  omega

theorem before_next (place : Position) (c : Char) : place.Before (place.next c) := by
  unfold Before next
  split_ifs
  · exact Or.inl (Nat.lt_succ_self place.row)
  · exact Or.inr ⟨rfl, Nat.lt_succ_self place.column⟩

theorem before_after (place : Position) {cs : List Char} (h : cs ≠ []) :
    place.Before (place.after cs) := by
  induction cs generalizing place with
  | nil => exact absurd rfl h
  | cons c cs ih =>
    show place.Before ((place.next c).after cs)
    cases cs with
    | nil => exact before_next place c
    | cons d cs => exact (before_next place c).trans (ih (place.next c) (by simp))

end Position

/-! ## Steps of a cursor -/

namespace Cursor

/-- A cursor further on: behind the text that was stepped over, at the place behind it. -/
structure LeadsOver (c : Cursor) (taken : List Char) (d : Cursor) : Prop where
  rest_eq : c.rest = taken ++ d.rest
  place_eq : d.place = c.place.after taken

/-- A cursor further on, whatever was stepped over. -/
def Leads (c d : Cursor) : Prop :=
  ∃ taken, c.LeadsOver taken d

theorem LeadsOver.trans {a b c : Cursor} {taken more : List Char} (hab : a.LeadsOver taken b)
    (hbc : b.LeadsOver more c) : a.LeadsOver (taken ++ more) c where
  rest_eq := by rw [hab.rest_eq, hbc.rest_eq, List.append_assoc]
  place_eq := by rw [hbc.place_eq, hab.place_eq, Position.after_append]

theorem Leads.refl (c : Cursor) : c.Leads c :=
  ⟨[], rfl, rfl⟩

theorem Leads.trans {a b c : Cursor} (hab : a.Leads b) (hbc : b.Leads c) : a.Leads c := by
  obtain ⟨taken, htaken⟩ := hab
  obtain ⟨more, hmore⟩ := hbc
  exact ⟨taken ++ more, htaken.trans hmore⟩

theorem LeadsOver.leads {c d : Cursor} {taken : List Char} (h : c.LeadsOver taken d) : c.Leads d :=
  ⟨taken, h⟩

theorem leadsOver_skip? {text : List Char} {c d : Cursor} (h : c.skip? text = some d) :
    c.LeadsOver text d := by
  unfold skip? at h
  split_ifs at h with hprefix
  cases h
  obtain ⟨rest, hrest⟩ := List.isPrefixOf_iff_prefix.1 hprefix
  exact ⟨by rw [← hrest, List.drop_left], rfl⟩

theorem leadsOver_span (p : Char → Bool) (c : Cursor) : c.LeadsOver (c.span p).1 (c.span p).2 :=
  ⟨(List.takeWhile_append_dropWhile (p := p)).symm, rfl⟩

theorem leads_skipSpace (c : Cursor) : c.Leads c.skipSpace :=
  (leadsOver_span isSpace c).leads

theorem leads_upTo? {stop text : List Char} {c d : Cursor} (h : c.upTo? stop = some (text, d)) :
    c.Leads d := by
  unfold upTo? at h
  split at h
  · cases h
  · rename_i before after hbreak
    split_ifs at h
    cases h
    exact ⟨text ++ stop, Text.breakOn_eq_some hbreak, rfl⟩

theorem leads_qualifiedName? {name : QualifiedName} {c d : Cursor}
    (h : c.qualifiedName? = some (name, d)) : c.Leads d := by
  obtain ⟨_, -, heq⟩ := Option.map_eq_some_iff.1 h
  cases heq
  exact (leadsOver_span isNameChar c).leads

end Cursor

open Cursor (Leads)

theorem leads_assignment? {c d : Cursor} {name : QualifiedName} {text : List Char}
    (h : assignment? c = some (name, text, d)) : c.Leads d := by
  simp only [assignment?, Option.bind_eq_bind, Option.bind_eq_some_iff] at h
  obtain ⟨⟨_, c1⟩, hname, c2, hequals, h⟩ := h
  have hsign : c.Leads c2.skipSpace :=
    (Cursor.leads_qualifiedName? hname).trans ((Cursor.leads_skipSpace c1).trans
      ((Cursor.leadsOver_skip? hequals).leads.trans (Cursor.leads_skipSpace c2)))
  split at h
  case h_3 => cases h
  -- either quote
  all_goals
    simp only [Option.bind_some, Option.bind_eq_some_iff] at h
    obtain ⟨c3, hquote, ⟨_, c4⟩, htext, h⟩ := h
    split_ifs at h
    cases h
    exact hsign.trans ((Cursor.leadsOver_skip? hquote).leads.trans (Cursor.leads_upTo? htext))

theorem leads_attribute? {c d : Cursor} {a : WrittenAttribute} (h : attribute? c = some (a, d)) :
    c.Leads d := by
  simp only [attribute?, Option.bind_eq_bind, Option.bind_eq_some_iff] at h
  obtain ⟨⟨_, _, _⟩, hassignment, _, -, h⟩ := h
  cases h
  exact leads_assignment? hassignment

theorem leads_tagRest? {limit : Nat} {c d : Cursor} {attributes : List WrittenAttribute} {empty : Bool}
    (h : tagRest? limit c = some (attributes, empty, d)) : c.Leads d := by
  induction limit generalizing c attributes with
  | zero => cases h
  | succ limit ih =>
    have hspace := Cursor.leads_skipSpace c
    unfold tagRest? at h
    dsimp only at h
    split at h
    · rename_i hclose
      cases h
      exact hspace.trans (Cursor.leadsOver_skip? hclose).leads
    · split at h
      · rename_i hclose
        cases h
        exact hspace.trans (Cursor.leadsOver_skip? hclose).leads
      · split at h
        · split at h
          · cases h
          · rename_i hfirst
            split at h
            · cases h
            · rename_i hothers
              cases h
              exact hspace.trans ((leads_attribute? hfirst).trans (ih hothers))
        · cases h

/-! ## Tokens -/

/-- How a part of a document begins, and where. -/
structure Opening where
  text : List Char
  place : Position
  deriving DecidableEq, Repr

namespace Opening

/-- How a start tag begins. -/
def ofTag (place : Position) : Opening := ⟨['<'], place⟩

/-- How a comment begins. -/
def ofComment (place : Position) : Opening := ⟨['<', '!', '-', '-'], place⟩

/-- How a processing instruction begins. -/
def ofInstruction (place : Position) : Opening := ⟨['<', '?'], place⟩

end Opening

/-- How a token begins, if it is one that keeps its place. -/
def Token.opening? : Token → Option Opening
  | .start tag _ => some (.ofTag tag.place)
  | .finish _ => none
  | .text _ => none
  | .data _ => none
  | .comment place => some (.ofComment place)
  | .instruction place => some (.ofInstruction place)

/-- A token was read that begins where the cursor stands, and is not empty if it keeps its place. -/
def ReadsToken (c : Cursor) (token : Token) (d : Cursor) : Prop :=
  ∃ taken, c.LeadsOver taken d ∧ ∀ opening ∈ token.opening?,
    opening.place = c.place ∧ opening.text <+: taken ∧ opening.text ≠ []

theorem readsToken_startTag? {c d : Cursor} {token : Token} (h : startTag? c = some (token, d)) :
    ReadsToken c token d := by
  simp only [startTag?, Option.bind_eq_bind, Option.bind_eq_some_iff] at h
  obtain ⟨c1, hopen, ⟨_, c2⟩, hname, ⟨_, _, _⟩, hrest, h⟩ := h
  cases h
  obtain ⟨more, hmore⟩ := (Cursor.leads_qualifiedName? hname).trans (leads_tagRest? hrest)
  refine ⟨['<'] ++ more, (Cursor.leadsOver_skip? hopen).trans hmore, fun opening hopening => ?_⟩
  cases hopening
  exact ⟨rfl, List.prefix_append _ _, List.cons_ne_nil _ _⟩

theorem readsToken_comment? {c d : Cursor} {token : Token} (h : comment? c = some (token, d)) :
    ReadsToken c token d := by
  simp only [comment?, Option.bind_eq_bind, Option.bind_eq_some_iff] at h
  obtain ⟨c1, hopen, ⟨_, c2⟩, htext, h⟩ := h
  split_ifs at h
  cases h
  obtain ⟨more, hmore⟩ := Cursor.leads_upTo? htext
  refine ⟨_ ++ more, (Cursor.leadsOver_skip? hopen).trans hmore, fun opening hopening => ?_⟩
  cases hopening
  exact ⟨rfl, List.prefix_append _ _, List.cons_ne_nil _ _⟩

theorem readsToken_instruction? {c d : Cursor} {token : Token}
    (h : instruction? c = some (token, d)) : ReadsToken c token d := by
  unfold instruction? at h
  split_ifs at h
  simp only [Option.bind_eq_bind, Option.bind_eq_some_iff] at h
  obtain ⟨c1, hopen, h⟩ := h
  split_ifs at h
  obtain ⟨⟨_, c2⟩, htext, h⟩ := Option.bind_eq_some_iff.1 h
  cases h
  obtain ⟨more, hmore⟩ := (Cursor.leadsOver_span isNameChar c1).leads.trans (Cursor.leads_upTo? htext)
  refine ⟨_ ++ more, (Cursor.leadsOver_skip? hopen).trans hmore, fun opening hopening => ?_⟩
  cases hopening
  exact ⟨rfl, List.prefix_append _ _, List.cons_ne_nil _ _⟩

/-- A token that keeps no place. -/
theorem readsToken_of_leads {c d : Cursor} {token : Token} (h : c.Leads d)
    (htoken : token.opening? = none) : ReadsToken c token d := by
  obtain ⟨taken, htaken⟩ := h
  exact ⟨taken, htaken, by simp [htoken]⟩

theorem readsToken_endTag? {c d : Cursor} {token : Token} (h : endTag? c = some (token, d)) :
    ReadsToken c token d := by
  simp only [endTag?, Option.bind_eq_bind, Option.bind_eq_some_iff] at h
  obtain ⟨c1, hopen, ⟨_, c2⟩, hname, c3, hclose, h⟩ := h
  cases h
  refine readsToken_of_leads ?_ rfl
  exact (Cursor.leadsOver_skip? hopen).leads.trans ((Cursor.leads_qualifiedName? hname).trans
    ((Cursor.leads_skipSpace c2).trans (Cursor.leadsOver_skip? hclose).leads))

theorem readsToken_data? {c d : Cursor} {token : Token} (h : data? c = some (token, d)) :
    ReadsToken c token d := by
  simp only [data?, Option.bind_eq_bind, Option.bind_eq_some_iff] at h
  obtain ⟨c1, hopen, ⟨_, c2⟩, htext, h⟩ := h
  cases h
  exact readsToken_of_leads
    ((Cursor.leadsOver_skip? hopen).leads.trans (Cursor.leads_upTo? htext)) rfl

theorem readsToken_text? {c d : Cursor} {token : Token} (h : text? c = some (token, d)) :
    ReadsToken c token d := by
  unfold text? at h
  dsimp only at h
  split_ifs at h
  obtain ⟨_, -, heq⟩ := Option.map_eq_some_iff.1 h
  cases heq
  exact readsToken_of_leads (Cursor.leadsOver_span _ c).leads rfl

theorem readsToken_token? {c d : Cursor} {token : Token} (h : token? c = some (token, d)) :
    ReadsToken c token d := by
  unfold token? at h
  split at h
  · exact readsToken_comment? h
  · exact readsToken_data? h
  · exact readsToken_instruction? h
  · exact readsToken_endTag? h
  · exact readsToken_startTag? h
  · exact readsToken_text? h

/-! ## Rows of tokens -/

/-- A part of a document stands behind a cursor where its place says. -/
def Cursor.Shows (c : Cursor) (opening : Opening) : Prop :=
  ∃ before rest, c.LeadsOver before ⟨opening.text ++ rest, opening.place⟩

/-- Parts of a document stand behind a cursor where their places say, and these increase. -/
structure WellPlaced (c : Cursor) (openings : List Opening) : Prop where
  shows : ∀ opening ∈ openings, c.Shows opening
  increasing : openings.Pairwise fun a b => a.place.Before b.place

theorem wellPlaced_nil (c : Cursor) : WellPlaced c [] :=
  ⟨by simp, .nil⟩

theorem WellPlaced.sublist {c : Cursor} {openings others : List Opening} (h : WellPlaced c openings)
    (hsub : others.Sublist openings) : WellPlaced c others :=
  ⟨fun opening hopening => h.shows opening (hsub.subset hopening), h.increasing.sublist hsub⟩

theorem WellPlaced.of_leads {c d : Cursor} {openings : List Opening} (hd : c.Leads d)
    (h : WellPlaced d openings) : WellPlaced c openings := by
  obtain ⟨taken, htaken⟩ := hd
  refine ⟨fun opening hopening => ?_, h.increasing⟩
  obtain ⟨before, rest, hbefore⟩ := h.shows opening hopening
  exact ⟨taken ++ before, rest, htaken.trans hbefore⟩

/-- A token in front of others. What keeps its place is not empty, so the places behind it are later. -/
theorem WellPlaced.cons_token {c d : Cursor} {token : Token} (hread : ReadsToken c token d)
    {openings : List Opening} (h : WellPlaced d openings) :
    WellPlaced c (token.opening?.toList ++ openings) := by
  obtain ⟨taken, htaken, hopening⟩ := hread
  have hlater := WellPlaced.of_leads htaken.leads h
  cases hfirst : token.opening? with
  | none => exact hlater
  | some first =>
    obtain ⟨hplace, ⟨more, rfl⟩, hne⟩ := hopening first hfirst
    refine ⟨List.forall_mem_cons.2 ⟨?_, hlater.shows⟩, List.pairwise_cons.2 ⟨?_, hlater.increasing⟩⟩
    · exact ⟨[], more ++ d.rest, by rw [htaken.rest_eq, List.nil_append, List.append_assoc], hplace⟩
    · intro later hmem
      obtain ⟨before, rest, hbefore⟩ := h.shows later hmem
      have hlaterPlace : later.place = _ := (htaken.trans hbefore).place_eq
      rw [hlaterPlace, hplace]
      exact c.place.before_after (by simp [hne])

theorem wellPlaced_tokens? {limit : Nat} {c : Cursor} {tokens : List Token}
    (h : tokens? limit c = some tokens) : WellPlaced c (tokens.filterMap Token.opening?) := by
  induction limit generalizing c tokens with
  | zero =>
    unfold tokens? at h
    split_ifs at h
    cases h
    exact wellPlaced_nil c
  | succ limit ih =>
    unfold tokens? at h
    split at h
    · cases h
      exact wellPlaced_nil c
    · split at h
      · cases h
      · rename_i token d htoken
        split at h
        · cases h
        · rename_i others hothers
          cases h
          have hrow := (ih hothers).cons_token (readsToken_token? htoken)
          rw [List.filterMap_cons]
          cases hopening : token.opening? <;> rw [hopening] at hrow <;> exact hrow

/-! ## Declarations -/

theorem leads_declarationSpace? {c d : Cursor} (h : declarationSpace? c = some d) : c.Leads d := by
  unfold declarationSpace? at h
  split_ifs at h
  · cases h
    exact Cursor.leads_skipSpace c
  · cases h
    exact Leads.refl c

theorem leads_declarationPart? {name : List Char} {c d : Cursor}
    (h : declarationPart? name c = some d) : c.Leads d := by
  unfold declarationPart? at h
  split_ifs at h
  · split at h
    · rename_i hpart
      exact (leads_assignment? hpart).trans (leads_declarationSpace? h)
    · cases h
  · cases h
    exact Leads.refl c

theorem leads_declaration? {c d : Cursor} (h : declaration? c = some d) : c.Leads d := by
  simp only [declaration?, Option.bind_eq_bind, Option.bind_eq_some_iff] at h
  obtain ⟨c1, hopen, c2, hspace, h⟩ := h
  split_ifs at h
  simp only [Option.bind_eq_some_iff] at h
  obtain ⟨c3, hversion, c4, hencoding, h⟩ := h
  have hparts : c.Leads c4 :=
    (Cursor.leadsOver_skip? hopen).leads.trans ((leads_declarationSpace? hspace).trans
      ((leads_declarationPart? hversion).trans (leads_declarationPart? hencoding)))
  have hend : ∀ {c5 : Cursor}, c5.skipSpace.skip? ['?', '>'] = some d → c5.Leads d := fun hclose =>
    (Cursor.leads_skipSpace _).trans (Cursor.leadsOver_skip? hclose).leads
  split_ifs at h
  · obtain ⟨c5, hmark, hclose⟩ := Option.bind_eq_some_iff.1 h
    obtain ⟨⟨_, _, _⟩, hassignment, rfl⟩ := Option.map_eq_some_iff.1 hmark
    exact hparts.trans ((leads_assignment? hassignment).trans (hend hclose))
  · exact hparts.trans (hend h)

/-- Where a document begins. -/
def Cursor.ofText (text : String) : Cursor :=
  ⟨text.toList, .start⟩

theorem wellPlaced_tokensOf? {text : String} {tokens : List Token} (h : tokensOf? text = some tokens) :
    WellPlaced (.ofText text) (tokens.filterMap Token.opening?) := by
  have hmark : (Cursor.ofText text).Leads
      (((Cursor.ofText text).skip? ['\ufeff']).getD (Cursor.ofText text)) := by
    cases hskip : (Cursor.ofText text).skip? ['\ufeff'] with
    | none => exact Leads.refl _
    | some c => exact (Cursor.leadsOver_skip? hskip).leads
  simp only [tokensOf?, Option.bind_eq_bind] at h
  refine .of_leads hmark ?_
  split at h
  · obtain ⟨start, hdeclaration, htokens⟩ := Option.bind_eq_some_iff.1 h
    exact .of_leads (leads_declaration? hdeclaration) (wellPlaced_tokens? htokens)
  · exact wellPlaced_tokens? h

/-! ## Elements -/

/-- How the parts of a chain begin that keep their places, in document order. -/
def Content.openings {τ : Type} (placeOf : τ → Position) : Content τ → List Opening
  | .done => []
  | .text _ rest => rest.openings placeOf
  | .comment place rest => .ofComment place :: rest.openings placeOf
  | .instruction place rest => .ofInstruction place :: rest.openings placeOf
  | .element tag body rest =>
    .ofTag (placeOf tag) :: (body.openings placeOf ++ rest.openings placeOf)

theorem openings_addText {τ : Type} (placeOf : τ → Position) (s : String) (c : Content τ) :
    (c.addText s).openings placeOf = c.openings placeOf := by
  cases c <;> rfl

/-- Nesting keeps the parts and their order: those of the innermost chain come first. -/
theorem openings_nest? {tokens : List Token} {outer : List Unopened} {content : Content WrittenTag}
    (h : nest? tokens = some (outer, content)) :
    tokens.filterMap Token.opening? =
      content.openings (·.place) ++ outer.flatMap (·.body.openings (·.place)) := by
  induction tokens generalizing outer content with
  | nil =>
    cases h
    rfl
  | cons token tokens ih =>
    unfold nest? at h
    split at h
    · cases h
    · rename_i inside chain hinside
      have hothers := ih hinside
      cases token with
      | text ps =>
        cases h
        rw [openings_addText]
        exact hothers
      | data s =>
        cases h
        rw [openings_addText]
        exact hothers
      | comment place =>
        cases h
        exact congrArg (_ :: ·) hothers
      | instruction place =>
        cases h
        exact congrArg (_ :: ·) hothers
      | finish name =>
        cases h
        exact hothers
      | start tag empty =>
        cases empty with
        | true =>
          cases h
          exact congrArg (_ :: ·) hothers
        | false =>
          cases inside with
          | nil => cases h
          | cons unopened inside =>
            dsimp only at h
            split_ifs at h
            cases h
            rw [List.filterMap_cons, hothers]
            simp [Token.opening?, Content.openings]

theorem place_resolve? {outer : Scope} {tag : WrittenTag} {resolved : StartTag}
    (h : tag.resolve? outer = some resolved) : resolved.place = tag.place := by
  simp only [WrittenTag.resolve?, Option.bind_eq_bind, Option.bind_eq_some_iff] at h
  obtain ⟨declared, -, attributes, -, h⟩ := h
  -- whatever the prefix stands for
  split at h
  case' isFalse => split at h
  all_goals
    obtain ⟨uri, -, h⟩ := Option.bind_eq_some_iff.1 h
    split_ifs at h
    cases h
    rfl

theorem openings_resolve? {outer : Scope} {content : Content WrittenTag} {resolved : Content StartTag}
    (h : content.resolve? outer = some resolved) :
    resolved.openings (·.place) = content.openings (·.place) := by
  induction content generalizing outer resolved with
  | done =>
    cases h
    rfl
  | text s rest ih =>
    obtain ⟨inner, hinner, rfl⟩ := Option.map_eq_some_iff.1 h
    rw [Content.openings, Content.openings, ih hinner]
  | comment place rest ih =>
    obtain ⟨inner, hinner, rfl⟩ := Option.map_eq_some_iff.1 h
    exact congrArg (_ :: ·) (ih hinner)
  | instruction place rest ih =>
    obtain ⟨inner, hinner, rfl⟩ := Option.map_eq_some_iff.1 h
    exact congrArg (_ :: ·) (ih hinner)
  | element tag body rest ihbody ihrest =>
    unfold Content.resolve? at h
    split at h
    · cases h
    · rename_i start hstart
      split at h
      · cases h
      · rename_i inner hinner
        obtain ⟨behind, hbehind, rfl⟩ := Option.map_eq_some_iff.1 h
        rw [Content.openings, Content.openings, place_resolve? hstart, ihbody hinner, ihrest hbehind]

theorem rootTokens_sublist (tokens : List Token) : (rootTokens tokens).Sublist tokens := by
  have hback := (List.dropWhile_suffix (·.isOutside) (l := (tokens.dropWhile (·.isOutside)).reverse)).sublist
  have hfront := (List.dropWhile_suffix (·.isOutside) (l := tokens)).sublist
  refine List.Sublist.trans ?_ hfront
  have := hback.reverse
  rwa [List.reverse_reverse] at this

namespace Element

/-- How an element and the parts inside it begin that keep their places, in document order. -/
def openings (e : Element) : List Opening :=
  .ofTag e.tag.place :: e.body.openings (·.place)

end Element

/-- The parts of a document stand where their places say, in increasing order. -/
theorem wellPlaced_ofText? {text : String} {root : Element} (h : Element.ofText? text = some root) :
    WellPlaced (.ofText text) root.openings := by
  simp only [Element.ofText?, Option.bind_eq_bind, Option.bind_eq_some_iff] at h
  obtain ⟨tokens, htokens, ⟨outer, content⟩, hnest, h⟩ := h
  split at h
  · rename_i heq
    cases heq
    obtain ⟨resolved, hresolved, h⟩ := Option.bind_eq_some_iff.1 h
    split at h
    · cases h
      have hparts := openings_nest? hnest
      rw [List.flatMap_nil, List.append_nil, ← openings_resolve? hresolved] at hparts
      have hroot := (wellPlaced_tokensOf? htokens).sublist ((rootTokens_sublist tokens).filterMap _)
      rw [hparts, Content.openings, Content.openings, List.append_nil] at hroot
      exact hroot
    · cases h
  · cases h

/-- The parts inside an element of a chain are among those of the chain, in the same order. -/
theorem openings_sublist_of_mem_elements {e : Element} {c : Content StartTag} (h : e ∈ c.elements) :
    e.openings.Sublist (c.openings (·.place)) := by
  induction c with
  | done => cases h
  | text _ rest ih => exact ih h
  | comment _ rest ih => exact (ih h).cons _
  | instruction _ rest ih => exact (ih h).cons _
  | element tag body rest ihbody ihrest =>
    rw [Content.elements, List.mem_cons, List.mem_append] at h
    rcases h with rfl | h | h
    · exact (List.sublist_append_left _ _).cons_cons _
    · exact ((ihbody h).trans (List.sublist_append_left _ _)).cons _
    · exact ((ihrest h).trans (List.sublist_append_right _ _)).cons _

end SsisCompiler.Markup
