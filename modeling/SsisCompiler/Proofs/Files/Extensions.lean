import SsisCompiler.Proofs.Files.Resolution

/-!
# Paths without their extension

A path is what leads to its last segment, and that segment. Taking off the extension changes the last
segment only: a name with an extension becomes its stem, except that two dots are left where the stem
is a single dot, and a name without an extension stays.

Results:
* `toList_of_segments`, `segments_of_lead`: the text of a path by its segments.
* `isAbsolute_of_segments`: whether a path starts at the top is decided before its last segment.
* `splitExtension_cases`: a name with and without an extension.
* `withoutExtension_eq`, `segments_withoutExtension`: the path without its extension.
* `leaf_eq_self_iff`: the last segment stays exactly if it has no extension.
-/

namespace SsisCompiler.Text

/-- A text by its pieces between a character. -/
theorem eq_of_split {c : Char} {cs last : List Char} {front : List (List Char)}
    (h : split (· == c) cs = front ++ [last]) : cs = front.flatMap (· ++ [c]) ++ last := by
  induction cs generalizing front last with
  | nil =>
    obtain ⟨rfl, rfl⟩ : front = [] ∧ last = [] := by
      cases front <;> simp_all [split]
    rfl
  | cons d cs ih =>
    by_cases hd : d = c
    · subst hd
      simp only [split, beq_self_eq_true, if_true] at h
      cases front with
      | nil => exact absurd (List.cons_eq_cons.1 h).2 (split_ne_nil _ cs)
      | cons first front =>
        obtain ⟨rfl, hrest⟩ := List.cons_eq_cons.1 h
        rw [ih hrest]
        rfl
    · obtain ⟨piece, rest, hcs, hcons⟩ := split_cons_of_neg (p := (· == c)) (beq_eq_false_iff_ne.2 hd) cs
      rw [hcons] at h
      cases front with
      | nil =>
        obtain ⟨rfl, rfl⟩ := List.cons_eq_cons.1 h
        have hone : split (· == c) cs = [] ++ [piece] := hcs
        rw [ih hone]
        rfl
      | cons first front =>
        obtain ⟨rfl, rfl⟩ := List.cons_eq_cons.1 h
        have hmore : split (· == c) cs = piece :: front ++ [last] := hcs
        rw [ih hmore]
        rfl

end SsisCompiler.Text

namespace SsisCompiler.Files

/-! ## Paths by their segments -/

/-- Some segments as they stand before another one. -/
def lead (front : List String) : List Char :=
  front.flatMap fun segment => segment.toList ++ ['/']

theorem toList_of_segments {path last : String} {front : List String}
    (h : segments path = front ++ [last]) : path.toList = lead front ++ last.toList := by
  unfold segments at h
  obtain ⟨pieces, rest, hsplit, rfl, hrest⟩ := List.map_eq_append_iff.1 h
  obtain ⟨piece, rfl, rfl⟩ := List.map_eq_singleton_iff.1 hrest
  rw [Text.eq_of_split hsplit, lead, List.flatMap_map, String.toList_ofList]
  simp only [String.toList_ofList]

theorem slash_not_mem_of_mem_segments {path segment : String} (h : segment ∈ segments path) :
    '/' ∉ segment.toList := by
  obtain ⟨piece, hpiece, rfl⟩ := List.mem_map.1 h
  rw [String.toList_ofList]
  intro hslash
  exact absurd (Text.not_of_mem_split hpiece '/' hslash) (by decide)

theorem slash_not_mem_of_segments {path last : String} {front : List String}
    (h : segments path = front ++ [last]) :
    (∀ segment ∈ front, '/' ∉ segment.toList) ∧ '/' ∉ last.toList :=
  ⟨fun _ hsegment => slash_not_mem_of_mem_segments (h ▸ List.mem_append_left _ hsegment),
    slash_not_mem_of_mem_segments (h ▸ List.mem_concat_self)⟩

theorem segments_of_lead {front : List String} (hfront : ∀ segment ∈ front, '/' ∉ segment.toList)
    {last : String} (hlast : '/' ∉ last.toList) :
    segments (String.ofList (lead front ++ last.toList)) = front ++ [last] := by
  induction front with
  | nil =>
    have hpath : String.ofList (lead [] ++ last.toList) = last := String.ofList_toList
    rw [hpath, segments_of_not_mem hlast]
    rfl
  | cons first front ih =>
    obtain ⟨hfirst, hfront⟩ := List.forall_mem_cons.1 hfront
    have hlead : lead (first :: front) ++ last.toList =
        first.toList ++ '/' :: (lead front ++ last.toList) := by
      simp [lead]
    rw [hlead, segments_slash, ih hfront, String.ofList_toList, segments_of_not_mem hfirst]
    rfl

theorem toList_ofSegments (front : List String) (last : String) :
    (ofSegments (front ++ [last])).toList = lead front ++ last.toList := by
  induction front with
  | nil => simp [ofSegments, lead]
  | cons first front ih =>
    have hcons : ofSegments (first :: (front ++ [last])) =
        first ++ "/" ++ ofSegments (front ++ [last]) := by
      cases front <;> exact String.intercalate_cons_cons
    rw [List.cons_append, hcons, String.toList_append, String.toList_append, ih]
    simp [lead]

/-- Whether a path starts at the top is decided by what stands before its last segment. -/
theorem isAbsolute_of_segments {path last : String} {front : List String}
    (h : segments path = front ++ [last]) : isAbsolute path = true ↔ front.head? = some "" := by
  obtain ⟨hfront, hlast⟩ := slash_not_mem_of_segments h
  rw [isAbsolute, beq_iff_eq, toList_of_segments h]
  cases front with
  | nil =>
    refine ⟨fun hhead => ?_, fun hnone => by cases hnone⟩
    exact absurd (List.mem_of_head? hhead) hlast
  | cons first front =>
    have hlead : lead (first :: front) ++ last.toList =
        first.toList ++ '/' :: (lead front ++ last.toList) := by
      simp [lead]
    rw [hlead, List.head?_cons, Option.some_inj]
    constructor
    · intro hhead
      cases hchars : first.toList with
      | nil => exact String.toList_eq_nil_iff.1 hchars
      | cons c cs =>
        -- the first character of a segment is no slash
        rw [hchars, List.cons_append, List.head?_cons] at hhead
        obtain rfl := Option.some.inj hhead
        exact absurd (hchars ▸ List.mem_cons_self) (hfront first List.mem_cons_self)
    · rintro rfl
      rfl

/-! ## Extensions -/

/-- A name without an extension, or a stem, a dot and an extension. -/
theorem splitExtension_cases (name : String) :
    splitExtension name = (name, none) ∨
      ∃ stem extension, splitExtension name = (stem, some extension) ∧ stem ≠ "" ∧
        name.toList = stem.toList ++ '.' :: extension.toList := by
  unfold splitExtension
  split
  · exact .inl rfl
  · exact .inl rfl
  · rename_i before after hne hbreak
    refine .inr ⟨_, _, rfl, ?_, ?_⟩
    · rw [ne_eq, ← String.toList_eq_nil_iff, String.toList_ofList, List.reverse_eq_nil_iff]
      rintro rfl
      exact hne rfl
    · have hname := congrArg List.reverse (Text.breakOn_eq_some hbreak)
      rw [List.reverse_reverse] at hname
      rw [hname]
      simp

theorem splitExtension_concat_dot {stem : String} (h : stem ≠ "") :
    (splitExtension (String.ofList (stem.toList ++ ['.']))).1 = stem := by
  have hbreak : Text.breakOn ['.'] (stem.toList ++ ['.']).reverse = some ([], stem.toList.reverse) := by
    rw [List.reverse_append]
    exact Text.breakOn_append List.not_mem_nil [] stem.toList.reverse
  have hne : stem.toList.reverse ≠ [] := by simpa using h
  obtain ⟨c, cs, hcons⟩ := List.exists_cons_of_ne_nil hne
  rw [splitExtension, String.toList_ofList, hbreak, hcons]
  dsimp only
  rw [← hcons, List.reverse_reverse, String.ofList_toList]

/-- What the last segment of a path becomes without its extension. -/
def leaf (name : String) : String :=
  match splitExtension name with
  | (_, none) => name
  | (stem, some _) => if stem == "." then ".." else stem

theorem leaf_cases (name : String) :
    (splitExtension name = (name, none) ∧ leaf name = name) ∨
      ∃ stem extension, splitExtension name = (stem, some extension) ∧ stem ≠ "" ∧
        name.toList = stem.toList ++ '.' :: extension.toList ∧
        leaf name = if stem = "." then ".." else stem := by
  rcases splitExtension_cases name with h | ⟨stem, extension, h, hne, hname⟩
  · exact .inl ⟨h, by rw [leaf, h]⟩
  · exact .inr ⟨stem, extension, h, hne, hname, by simp [leaf, h]⟩

theorem leaf_isPrefix (name : String) : (leaf name).toList <+: name.toList := by
  rcases leaf_cases name with ⟨-, hleaf⟩ | ⟨stem, extension, -, -, hname, hleaf⟩
  · rw [hleaf]
  · rw [hleaf, hname]
    split
    · rename_i hdot
      subst hdot
      exact List.prefix_append ['.', '.'] _
    · exact List.prefix_append _ _

theorem isIdle_leaf {name : String} (h : isIdle name = false) : isIdle (leaf name) = false := by
  rcases leaf_cases name with ⟨-, hleaf⟩ | ⟨stem, extension, -, hne, -, hleaf⟩
  · rw [hleaf, h]
  · rw [hleaf]
    split
    · decide
    · rename_i hdot
      simp [isIdle, hne, hdot]

/-- A name stays exactly if it has no extension. -/
theorem leaf_eq_self_iff {name : String} (h : name ≠ "..") :
    leaf name = name ↔ (splitExtension name).2 = none := by
  rcases leaf_cases name with ⟨hsplit, hleaf⟩ | ⟨stem, extension, hsplit, hne, hname, hleaf⟩
  · simp [hsplit, hleaf]
  · rw [hsplit, hleaf]
    refine iff_of_false (fun heq => ?_) (by simp)
    split at heq
    · exact h heq.symm
    · subst heq
      have hlength := congrArg List.length hname
      simp at hlength

/-! ## Paths without their extension -/

section

variable {path name : String} {front : List String}

theorem dropWhile_segments (h : segments path = front ++ [name]) (hidle : isIdle name = false) :
    (segments path).reverse.dropWhile isIdle = name :: front.reverse := by
  rw [h, List.reverse_append, List.reverse_singleton, List.singleton_append, List.dropWhile_cons,
    if_neg (by simp [hidle])]

theorem fileName?_of_segments (h : segments path = front ++ [name]) (hidle : isIdle name = false) :
    fileName? path = if name == ".." then none else some name := by
  rw [fileName?, dropWhile_segments h hidle]

theorem extension?_of_segments (h : segments path = front ++ [name]) (hidle : isIdle name = false)
    (hup : name ≠ "..") : extension? path = (splitExtension name).2 := by
  rw [extension?, fileName?_of_segments h hidle, if_neg (by simpa using hup), Option.bind_some]

theorem cutAfterStem_of_segments (h : segments path = front ++ [name]) (hidle : isIdle name = false)
    (hup : name ≠ "..") : cutAfterStem path = ofSegments (front ++ [(splitExtension name).1]) := by
  rw [cutAfterStem, fileStem?, fileName?_of_segments h hidle, if_neg (by simpa using hup),
    dropWhile_segments h hidle]
  simp

/-- A path that goes up at its end has no stem and stays. -/
theorem cutAfterStem_up (h : segments path = front ++ [".."]) : cutAfterStem path = path := by
  rw [cutAfterStem, fileStem?, fileName?_of_segments h (by decide), dropWhile_segments h (by decide)]
  rfl

/-- Without its extension, a path ends in what is left of its last segment. -/
theorem withoutExtension_eq (h : segments path = front ++ [name]) (hidle : isIdle name = false)
    (hup : name ≠ "..") : withoutExtension path = ofSegments (front ++ [leaf name]) := by
  obtain ⟨hfront, hslash⟩ := slash_not_mem_of_segments h
  rcases leaf_cases name with ⟨hsplit, hleaf⟩ | ⟨stem, extension, hsplit, hne, hname, hleaf⟩
  · rw [withoutExtension, extension?_of_segments h hidle hup, hsplit]
    dsimp only
    rw [cutAfterStem_of_segments h hidle hup, hsplit, hleaf]
  · -- the text up to the dot is a path of its own, which is cut after its stem
    have hpath : path.toList = lead front ++ (stem.toList ++ ['.']) ++ extension.toList := by
      rw [toList_of_segments h, hname]
      simp
    have hcut : path.toList.take (path.toList.length - extension.length) =
        lead front ++ (stem.toList ++ ['.']) := by
      rw [hpath, List.length_append, String.length_toList, Nat.add_sub_cancel, List.take_left]
    have hdotted : '/' ∉ (String.ofList (stem.toList ++ ['.'])).toList := by
      rw [hname] at hslash
      simp_all
    have hsegments : segments (String.ofList (lead front ++ (stem.toList ++ ['.']))) =
        front ++ [String.ofList (stem.toList ++ ['.'])] := by
      have hlead := segments_of_lead hfront hdotted
      rwa [String.toList_ofList] at hlead
    rw [withoutExtension, extension?_of_segments h hidle hup, hsplit]
    dsimp only
    rw [hcut, hleaf]
    split
    · rename_i hdot
      subst hdot
      rw [cutAfterStem_up hsegments, ← String.toList_inj, toList_ofSegments, String.toList_ofList]
      rfl
    · rename_i hdot
      rw [cutAfterStem_of_segments hsegments, splitExtension_concat_dot hne]
      · simp [isIdle, hne]
      · intro heq
        have hchars : stem.toList ++ ['.'] = ['.'] ++ ['.'] := by
          rw [← String.toList_ofList (l := stem.toList ++ ['.']), heq]
          rfl
        exact hdot (String.toList_inj.1 (List.append_cancel_right hchars))

theorem segments_withoutExtension (h : segments path = front ++ [name]) (hidle : isIdle name = false)
    (hup : name ≠ "..") : segments (withoutExtension path) = front ++ [leaf name] := by
  obtain ⟨hfront, hslash⟩ := slash_not_mem_of_segments h
  have hleaf : '/' ∉ (leaf name).toList := fun hmem => hslash ((leaf_isPrefix name).subset hmem)
  rw [withoutExtension_eq h hidle hup, ← String.ofList_toList (s := ofSegments _), toList_ofSegments]
  exact segments_of_lead hfront hleaf

theorem withoutExtension_isPrefix (h : segments path = front ++ [name]) (hidle : isIdle name = false)
    (hup : name ≠ "..") : (withoutExtension path).toList <+: path.toList := by
  rw [withoutExtension_eq h hidle hup, toList_ofSegments, toList_of_segments h]
  exact (List.prefix_append_right_inj _).2 (leaf_isPrefix name)

end

end SsisCompiler.Files
