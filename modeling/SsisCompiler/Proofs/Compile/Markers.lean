import Mathlib.Data.List.Infix
import SsisCompiler.Compile.Task.Markers

/-!
# Renamed markers

Renaming goes through a statement once and looks at most one character ahead. It cuts the statement at
question marks and puts a name at each cut. A name begins and ends with characters that no mark of a
literal, a quoted name or a comment has, so the renamed statement is read as the statement was.

Results:
* `exists_pieces`: the pieces of a statement, and what stays in them.
* `renameFrom_renameFrom`: renaming a renamed statement changes nothing.
* `renameMarkers_pieces`: both for whole statements.
* `exists_renameFrom_append`: what becomes of a question mark depends on the region behind the text
  before it.
-/

namespace SsisCompiler.Compile

/-! ## Single steps -/

/-- Whether a character may begin a region: of a literal, a quoted name or a comment. -/
def isOpening (c : Char) : Bool :=
  c == '\'' || c == '"' || c == '[' || c == '-' || c == '/'

/-- The name of the marker with a number. -/
def markerName (n : Nat) : List Char :=
  '@' :: 'p' :: (toString n).toList

theorem after_of_not_isOpening {c : Char} (h : isOpening c = false) (cs : List Char) :
    Region.after c cs = .plain := by
  unfold Region.after
  split
  · cases h
  · cases h
  · cases h
  · cases h
  · rfl

/-- The region behind a character depends on what follows it only where a second `-` does. -/
theorem after_congr {c : Char} {cs ds : List Char}
    (h : c = '-' → (cs.head? = some '-' ↔ ds.head? = some '-')) :
    Region.after c cs = Region.after c ds := by
  unfold Region.after
  split
  · rfl
  · rfl
  · rfl
  · simp only [beq_iff_eq, h rfl]
  · rfl

theorem renameFrom_marker (n : Nat) (cs : List Char) :
    renameFrom .plain n ('?' :: cs) = markerName n ++ renameFrom .plain (n + 1) cs := by
  simp [renameFrom, markerName]

theorem renameFrom_block (n : Nat) (cs : List Char) :
    renameFrom .plain n ('/' :: '*' :: cs) = '/' :: '*' :: renameFrom (.block '\x00') n cs := by
  simp [renameFrom]

theorem renameFrom_plain {c : Char} {cs : List Char} (hc : c ≠ '?')
    (hblock : c = '/' → cs.head? ≠ some '*') (n : Nat) :
    renameFrom .plain n (c :: cs) = c :: renameFrom (.after c cs) n cs := by
  rw [renameFrom]
  · exact hc
  · rintro rest rfl rfl
    exact hblock rfl rfl

/-- A character that begins no mark of two has the second character of the mark not behind it. -/
theorem head?_ne_of_forall {c d e : Char} {cs : List Char}
    (h : ∀ rest, c = d → cs = e :: rest → False) : c = d → cs.head? ≠ some e := by
  intro hc hhead
  obtain ⟨rest, hrest⟩ := List.head?_eq_some_iff.1 hhead
  exact h rest hc hrest

/-! ## Pieces -/

/-- The pieces of a statement with a name between any two, the first one with the given number. -/
def joinNamed : Nat → List (List Char) → List Char
  | _, [] => []
  | _, [piece] => piece
  | n, piece :: next :: pieces => piece ++ markerName n ++ joinNamed (n + 1) (next :: pieces)

/-- Whether no question mark stands before the first character of a piece that may begin a region. -/
def isSettled (piece : List Char) : Bool :=
  !(piece.takeWhile (!isOpening ·)).contains '?'

theorem isSettled_cons_of_isOpening {c : Char} (hc : isOpening c = true) (piece : List Char) :
    isSettled (c :: piece) = true := by
  simp [isSettled, hc]

theorem isSettled_cons {c : Char} (hc : isOpening c = false) (hne : c ≠ '?') (piece : List Char) :
    isSettled (c :: piece) = isSettled piece := by
  simp [isSettled, hc, hne.symm]

/-- A text is cut into pieces at question marks, and an output has names at the cuts. All pieces but the
first begin outside of regions. -/
structure CutInto (n : Nat) (cs out piece : List Char) (pieces : List (List Char)) : Prop where
  text : cs = ['?'].intercalate (piece :: pieces)
  named : out = joinNamed n (piece :: pieces)
  settled : ∀ piece ∈ pieces, isSettled piece = true

theorem CutInto.cons {n : Nat} {cs out piece : List Char} {pieces : List (List Char)}
    (h : CutInto n cs out piece pieces) (c : Char) :
    CutInto n (c :: cs) (c :: out) (c :: piece) pieces := by
  refine ⟨?_, ?_, h.settled⟩
  · rw [h.text]
    cases pieces <;> simp [List.intercalate]
  · rw [h.named]
    cases pieces <;> rfl

/-- The pieces of a text that is read from a region on. The first one, too, has a question mark only
behind a character that may begin a region, if the reading begins outside of regions. -/
theorem exists_pieces (region : Region) (n : Nat) (cs : List Char) :
    ∃ piece pieces, CutInto n cs (renameFrom region n cs) piece pieces ∧
      (region = .plain → isSettled piece = true) := by
  fun_induction renameFrom region n cs with
  | case1 region n => exact ⟨[], [], ⟨by simp, rfl, by simp⟩, fun _ => rfl⟩
  | case2 n cs ih =>
    obtain ⟨piece, pieces, hcut, hfirst⟩ := ih
    refine ⟨[], piece :: pieces, ⟨?_, ?_, ?_⟩, fun _ => rfl⟩
    · rw [hcut.text, List.intercalate_cons_cons]
      rfl
    · rw [hcut.named]
      rfl
    · exact List.forall_mem_cons.2 ⟨hfirst rfl, hcut.settled⟩
  | case3 n cs ih =>
    obtain ⟨piece, pieces, hcut, -⟩ := ih
    exact ⟨_, pieces, (hcut.cons '*').cons '/', fun _ => isSettled_cons_of_isOpening rfl _⟩
  | case4 n c cs hmarker hblock ih =>
    obtain ⟨piece, pieces, hcut, hfirst⟩ := ih
    refine ⟨_, pieces, hcut.cons c, fun _ => ?_⟩
    cases hc : isOpening c with
    | true => exact isSettled_cons_of_isOpening hc piece
    | false =>
      rw [isSettled_cons hc hmarker]
      exact hfirst (after_of_not_isOpening hc cs)
  | case5 close n c cs ih =>
    obtain ⟨piece, pieces, hcut, -⟩ := ih
    exact ⟨_, pieces, hcut.cons c, by simp⟩
  | case6 last n c cs ih =>
    obtain ⟨piece, pieces, hcut, -⟩ := ih
    exact ⟨_, pieces, hcut.cons c, by simp⟩

/-! ## Renaming twice -/

/-- Whether a character neither begins a region nor is a marker. -/
def isInert (c : Char) : Bool :=
  !isOpening c && c != '?'

theorem renameFrom_append_of_isInert {cs : List Char} (h : ∀ c ∈ cs, isInert c = true) (n : Nat)
    (rest : List Char) : renameFrom .plain n (cs ++ rest) = cs ++ renameFrom .plain n rest := by
  induction cs with
  | nil => rfl
  | cons c cs ih =>
    obtain ⟨hc, hcs⟩ := List.forall_mem_cons.1 h
    simp only [isInert, Bool.and_eq_true, Bool.not_eq_true', bne_iff_ne] at hc
    have hslash : c = '/' → (cs ++ rest).head? ≠ some '*' := by
      rintro rfl
      exact absurd hc.1 (by decide)
    rw [List.cons_append, renameFrom_plain hc.2 hslash, after_of_not_isOpening hc.1, ih hcs]
    rfl

theorem isInert_markerName (n : Nat) : ∀ c ∈ markerName n, isInert c = true := by
  have hdigit : ∀ c : Char, c.isDigit = true → isInert c = true := by
    intro c hc
    rw [← Bool.not_eq_false]
    intro hinert
    simp only [isInert, isOpening, Bool.and_eq_false_iff, Bool.not_eq_false', Bool.or_eq_true,
      beq_iff_eq, bne_eq_false_iff_eq] at hinert
    rcases hinert with ((((rfl | rfl) | rfl) | rfl) | rfl) | rfl <;> cases hc
  simp only [markerName, List.forall_mem_cons]
  refine ⟨by decide, by decide, fun c hc => hdigit c ?_⟩
  rw [Nat.toString_eq_repr, Nat.toList_repr] at hc
  exact Nat.isDigit_of_mem_toDigits (by omega) (by omega) hc

/-- Renaming puts no character in front that completes a mark with the character before. -/
theorem head?_renameFrom {d : Char} (hd : d ≠ '?') (hat : d ≠ '@') (region : Region) (n : Nat)
    (cs : List Char) : (renameFrom region n cs).head? = some d ↔ cs.head? = some d := by
  fun_cases renameFrom region n cs with
  | case2 n cs => simp [hd.symm, hat.symm]
  | _ => simp

/-- The region behind a character stays when what follows it is renamed. -/
theorem after_renameFrom (c : Char) (region : Region) (n : Nat) (cs : List Char) :
    Region.after c (renameFrom region n cs) = Region.after c cs :=
  after_congr fun _ => head?_renameFrom (by decide) (by decide) region n cs

theorem renameFrom_renameFrom (region : Region) (m n : Nat) (cs : List Char) :
    renameFrom region m (renameFrom region n cs) = renameFrom region n cs := by
  fun_induction renameFrom region n cs generalizing m with
  | case1 => simp [renameFrom]
  | case2 n cs ih =>
    have hname := renameFrom_append_of_isInert (isInert_markerName n) m
      (renameFrom .plain (n + 1) cs)
    rw [ih] at hname
    exact hname
  | case3 n cs ih => rw [renameFrom_block, ih]
  | case4 n c cs hmarker hblock ih =>
    have hslash : c = '/' → (renameFrom (Region.after c cs) n cs).head? ≠ some '*' := by
      rw [ne_eq, head?_renameFrom (by decide) (by decide)]
      exact head?_ne_of_forall hblock
    rw [renameFrom_plain hmarker hslash, after_renameFrom, ih]
  | case5 close n c cs ih => rw [renameFrom, ih]
  | case6 last n c cs ih => rw [renameFrom, ih]

/-- A statement is the row of its pieces with a question mark between any two, and the renamed statement
is the same row with the names `@p0`, `@p1` and so on in their place. A question mark that stays stands
in its piece behind a character that may begin a literal, a quoted name or a comment. Renaming the
renamed statement changes nothing. -/
theorem renameMarkers_pieces (statement : String) :
    (∃ pieces, pieces ≠ [] ∧ statement.toList = ['?'].intercalate pieces ∧
      (renameMarkers statement).toList = joinNamed 0 pieces ∧
      ∀ piece ∈ pieces, '?' ∉ piece.takeWhile (!isOpening ·)) ∧
    renameMarkers (renameMarkers statement) = renameMarkers statement := by
  constructor
  · obtain ⟨piece, pieces, hcut, hfirst⟩ := exists_pieces .plain 0 statement.toList
    refine ⟨piece :: pieces, by simp, hcut.text, ?_, fun other hmem => ?_⟩
    · rw [renameMarkers, String.toList_ofList, hcut.named]
    · have hsettled : isSettled other = true := by
        rcases List.mem_cons.1 hmem with rfl | hmem
        · exact hfirst rfl
        · exact hcut.settled other hmem
      simpa [isSettled] using hsettled
  · simp only [renameMarkers, String.toList_ofList, renameFrom_renameFrom]

/-! ## What becomes of one question mark -/

/-- The region in which a question mark behind a text lies. -/
def Region.behind : Region → List Char → Region
  | region, [] => region
  | .upTo close, c :: cs => behind (if c == close then .plain else .upTo close) cs
  | .block last, c :: cs => behind (if last == '*' && c == '/' then .plain else .block c) cs
  | .plain, '/' :: '*' :: cs => behind (.block '\x00') cs
  | .plain, c :: cs => behind (.after c cs) cs

@[simp] theorem Region.behind_nil (region : Region) : region.behind [] = region := rfl

theorem Region.behind_upTo (close c : Char) (cs : List Char) : (Region.upTo close).behind (c :: cs) =
    (if c == close then Region.plain else .upTo close).behind cs := rfl

theorem Region.behind_block (last c : Char) (cs : List Char) : (Region.block last).behind (c :: cs) =
    (if last == '*' && c == '/' then Region.plain else .block c).behind cs := rfl

theorem Region.behind_blockMark (cs : List Char) :
    Region.plain.behind ('/' :: '*' :: cs) = (Region.block '\x00').behind cs := rfl

theorem behind_plain {c : Char} {cs : List Char} (hblock : c = '/' → cs.head? ≠ some '*') :
    Region.plain.behind (c :: cs) = (Region.after c cs).behind cs := by
  rw [Region.behind]
  rintro rest rfl rfl
  exact hblock rfl rfl

/-- A question mark completes no mark with the character before it. -/
theorem head?_append_marker {d : Char} (hd : d ≠ '?') (cs rest : List Char) :
    (cs ++ '?' :: rest).head? = some d ↔ cs.head? = some d := by
  cases cs with
  | nil => simp [hd.symm]
  | cons c cs => simp

theorem after_append_marker (c : Char) (cs rest : List Char) :
    Region.after c (cs ++ '?' :: rest) = Region.after c cs :=
  after_congr fun _ => head?_append_marker (by decide) cs rest

/-- Behind what becomes of the text before it, a question mark is renamed or stays. -/
theorem exists_renameFrom_append (region : Region) (n : Nat) (before after : List Char) :
    ∃ rest, renameFrom region n (before ++ '?' :: after) = renameFrom region n before ++
      (if region.behind before = .plain then '@' else '?') :: rest := by
  fun_induction renameFrom region n before with
  | case1 region n =>
    cases region with
    | plain => exact ⟨_, renameFrom_marker n after⟩
    | upTo close => exact ⟨_, by simp [renameFrom]; rfl⟩
    | block last => exact ⟨_, by simp [renameFrom]; rfl⟩
  | case2 n cs ih =>
    obtain ⟨rest, hrest⟩ := ih
    refine ⟨rest, ?_⟩
    rw [List.cons_append, renameFrom_marker, hrest, behind_plain (by simp)]
    simp [markerName, Region.after]
  | case3 n cs ih =>
    obtain ⟨rest, hrest⟩ := ih
    refine ⟨rest, ?_⟩
    rw [List.cons_append, List.cons_append, renameFrom_block, hrest, Region.behind_blockMark,
      List.cons_append, List.cons_append]
  | case4 n c cs hmarker hblock ih =>
    obtain ⟨rest, hrest⟩ := ih
    have hslash : c = '/' → (cs ++ '?' :: after).head? ≠ some '*' := by
      rw [ne_eq, head?_append_marker (by decide)]
      exact head?_ne_of_forall hblock
    refine ⟨rest, ?_⟩
    rw [List.cons_append, renameFrom_plain hmarker hslash, after_append_marker, hrest,
      behind_plain (head?_ne_of_forall hblock), List.cons_append]
  | case5 close n c cs ih =>
    obtain ⟨rest, hrest⟩ := ih
    exact ⟨rest, by rw [List.cons_append, renameFrom, hrest, Region.behind_upTo, List.cons_append]⟩
  | case6 last n c cs ih =>
    obtain ⟨rest, hrest⟩ := ih
    exact ⟨rest, by rw [List.cons_append, renameFrom, hrest, Region.behind_block, List.cons_append]⟩

/-- The question mark between two texts is renamed: behind what becomes of the first text stands an `@`
in its place. -/
def Renamed (before after : List Char) : Prop :=
  ∃ rest, (renameMarkers (String.ofList (before ++ '?' :: after))).toList =
    (renameMarkers (String.ofList before)).toList ++ '@' :: rest

theorem renamed_iff (before after : List Char) :
    Renamed before after ↔ Region.plain.behind before = .plain := by
  obtain ⟨rest, hrest⟩ := exists_renameFrom_append .plain 0 before after
  simp only [Renamed, renameMarkers, String.toList_ofList, hrest, List.append_cancel_left_eq]
  by_cases hplain : Region.plain.behind before = .plain
  · simp [hplain]
  · simp [hplain]

end SsisCompiler.Compile
