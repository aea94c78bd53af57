import SsisCompiler.Files.Disk
import SsisCompiler.Proofs.Files.Contents
import SsisCompiler.Proofs.Text.Pieces

/-!
# Where paths lead

Where a path leads can be read off its segments, without looking at the files: staying segments are
skipped, going up drops the last name, and any other segment is one more name. If a disk finds
something at the end of a path, it is there.

Results:
* `walkAll_forward`: segments that do not go up add their names.
* `resolve_join`: a path followed from another one leads on from where that one leads.
* `Place.Below.entry?_location`: the folder of a place is what lies there.
* `Disk.exists_of_locate`, `Disk.location_of_locate`: what a disk finds lies where the path leads.
-/

namespace SsisCompiler.Files

/-! ## Segments -/

theorem segments_slash (a b : List Char) :
    segments (String.ofList (a ++ '/' :: b)) =
      segments (String.ofList a) ++ segments (String.ofList b) := by
  simp only [segments, String.toList_ofList]
  rw [Text.split_append_cons (by rfl), List.map_append]

theorem segments_of_not_mem {s : String} (h : '/' ∉ s.toList) : segments s = [s] := by
  have hsplit : Text.split (· == '/') s.toList = [s.toList] := by
    refine Text.split_of_not fun c hc => ?_
    rw [beq_eq_false_iff_ne]
    rintro rfl
    exact h hc
  rw [segments, hsplit, List.map_singleton, String.ofList_toList]

/-- Looking from the end for the first of a list that is not of a class. -/
theorem exists_of_dropWhile_reverse {α : Type} {p : α → Bool} {list front : List α} {last : α}
    (h : list.reverse.dropWhile p = last :: front) :
    p last = false ∧ ∃ back, list = front.reverse ++ last :: back ∧ ∀ x ∈ back, p x = true := by
  have hlast := List.head?_dropWhile_not p list.reverse
  rw [h, List.head?_cons] at hlast
  have hall := List.takeWhile_append_dropWhile (p := p) (l := list.reverse)
  rw [h] at hall
  refine ⟨hlast, (list.reverse.takeWhile p).reverse, ?_, fun x hx => ?_⟩
  · simpa using (congrArg List.reverse hall).symm
  · exact List.mem_takeWhile_imp (List.mem_reverse.1 hx)

/-- The first segment of a path that is not empty and does not start at the top is a name. -/
theorem exists_segment_ne_empty {path : String} (hempty : path.isEmpty = false)
    (habsolute : isAbsolute path = false) : ∃ segment ∈ segments path, segment.isEmpty = false := by
  cases hpath : path.toList with
  | nil =>
    rw [String.toList_eq_nil_iff.1 hpath] at hempty
    cases hempty
  | cons c cs =>
    have hc : (c == '/') = false := by simpa [isAbsolute, hpath] using habsolute
    obtain ⟨piece, rest, -, hsplit⟩ := Text.split_cons_of_neg (p := (· == '/')) hc cs
    refine ⟨String.ofList (c :: piece), ?_, ?_⟩
    · rw [segments, hpath, hsplit]
      exact List.mem_cons_self
    · simp

/-! ## Where segments lead -/

/-- Where one segment leads. -/
def walk (location : Location) (segment : String) : Location :=
  if isIdle segment then location
  else if segment == ".." then location.dropLast
  else location ++ [segment]

/-- Where some segments lead. -/
def walkAll (location : Location) (list : List String) : Location :=
  list.foldl walk location

theorem walkAll_append (location : Location) (a b : List String) :
    walkAll location (a ++ b) = walkAll (walkAll location a) b :=
  List.foldl_append

theorem walkAll_cons (location : Location) (segment : String) (rest : List String) :
    walkAll location (segment :: rest) = walkAll (walk location segment) rest := rfl

theorem walk_idle {segment : String} (h : isIdle segment = true) (location : Location) :
    walk location segment = location := by
  rw [walk, if_pos h]

theorem walk_name {segment : String} (hidle : isIdle segment = false) (hup : segment ≠ "..")
    (location : Location) : walk location segment = location ++ [segment] := by
  simp [walk, hidle, hup]

/-- Segments that do not go up add their names. -/
theorem walkAll_forward (location : Location) {list : List String} (h : ".." ∉ list) :
    walkAll location list = location ++ list.filter (!isIdle ·) := by
  induction list generalizing location with
  | nil => simp [walkAll]
  | cons segment rest ih =>
    obtain ⟨hup, hrest⟩ := not_or.1 (List.mem_cons.not.1 h)
    rw [walkAll_cons]
    cases hidle : isIdle segment with
    | true => rw [walk_idle hidle, ih _ hrest, List.filter_cons_of_neg (by simp [hidle])]
    | false =>
      rw [walk_name hidle (Ne.symm hup), ih _ hrest, List.filter_cons_of_pos (by simp [hidle]),
        List.append_assoc, List.singleton_append]

theorem isIdle_of_isEmpty {segment : String} (h : segment.isEmpty = true) :
    isIdle segment = true := by
  rw [isIdle, h, Bool.true_or]

theorem walkAll_blanks (location : Location) {blanks : List String}
    (h : ∀ segment ∈ blanks, segment.isEmpty = true) : walkAll location blanks = location := by
  induction blanks with
  | nil => rfl
  | cons segment rest ih =>
    obtain ⟨hsegment, hrest⟩ := List.forall_mem_cons.1 h
    rw [walkAll_cons, walk_idle (isIdle_of_isEmpty hsegment), ih hrest]

/-! ## Where paths lead -/

/-- Where a path starts. -/
def origin (working : Location) (path : String) : Location :=
  if isAbsolute path then [] else walkAll [] working

/-- Where a path leads. -/
def resolve (working : Location) (path : String) : Location :=
  walkAll (origin working path) (segments path)

/-- A path followed from another one is put behind it, with one slash in between. -/
theorem join_cases (base : String) {path : String} (h : isAbsolute path = false) :
    (base = "" ∧ join base path = path) ∨
      (∃ front, base = String.ofList (front ++ ['/']) ∧
        join base path = String.ofList (front ++ '/' :: path.toList)) ∨
      (base ≠ "" ∧ join base path = String.ofList (base.toList ++ '/' :: path.toList)) := by
  unfold join
  rw [h, if_neg Bool.false_ne_true]
  split
  · rename_i hend
    rcases Bool.or_eq_true_iff.1 hend with hempty | hslash
    · obtain rfl := String.isEmpty_iff.1 hempty
      exact Or.inl ⟨rfl, String.empty_append⟩
    · obtain ⟨front, hfront⟩ := List.getLast?_eq_some_iff.1 (beq_iff_eq.1 hslash)
      refine Or.inr (Or.inl ⟨front, ?_, ?_⟩)
      · rw [← hfront, String.ofList_toList]
      · rw [← String.toList_inj]
        simp [hfront]
  · rename_i hend
    refine Or.inr (Or.inr ⟨?_, ?_⟩)
    · rintro rfl
      exact hend rfl
    · rw [← String.toList_inj]
      simp

theorem isAbsolute_join (base : String) {path : String} (h : isAbsolute path = false) :
    isAbsolute (join base path) = isAbsolute base := by
  rcases join_cases base h with ⟨rfl, hjoin⟩ | ⟨front, rfl, hjoin⟩ | ⟨hbase, hjoin⟩
  · rw [hjoin, h]
    rfl
  · rw [hjoin]
    cases front <;> simp [isAbsolute]
  · rw [hjoin]
    cases hchars : base.toList with
    | nil => exact absurd (String.toList_eq_nil_iff.1 hchars) hbase
    | cons c cs => simp [isAbsolute, hchars]

theorem walkAll_join (location : Location) (base : String) {path : String}
    (h : isAbsolute path = false) :
    walkAll location (segments (join base path)) =
      walkAll (walkAll location (segments base)) (segments path) := by
  rcases join_cases base h with ⟨rfl, hjoin⟩ | ⟨front, rfl, hjoin⟩ | ⟨-, hjoin⟩
  · rw [hjoin]
    rfl
  · rw [hjoin, segments_slash, segments_slash, walkAll_append, walkAll_append, String.ofList_toList]
    rfl
  · rw [hjoin, segments_slash, walkAll_append, String.ofList_toList, String.ofList_toList]

theorem segments_suffix_join (base : String) {path : String} (h : isAbsolute path = false) :
    segments path <:+ segments (join base path) := by
  rcases join_cases base h with ⟨-, hjoin⟩ | ⟨front, -, hjoin⟩ | ⟨-, hjoin⟩
  · rw [hjoin]
  · rw [hjoin, segments_slash, String.ofList_toList]
    exact List.suffix_append _ _
  · rw [hjoin, segments_slash, String.ofList_toList, String.ofList_toList]
    exact List.suffix_append _ _

theorem resolve_join (working : Location) (base : String) {path : String} (h : isAbsolute path = false) :
    resolve working (join base path) = walkAll (resolve working base) (segments path) := by
  rw [resolve, origin, isAbsolute_join base h, walkAll_join _ base h]
  rfl

/-! ## What a disk finds -/

namespace Place

/-- The place lies below a folder, and its trail is the way to it. -/
inductive Below (root : Folder) : Place → Prop
  | top : Below root ⟨root, []⟩
  | step {p : Place} {name : String} {inner : Folder} (h : Below root p)
    (hname : p.folder.find? name = some (.folder inner)) :
    Below root ⟨inner, (name, p.folder) :: p.trail⟩

variable {root : Folder} {p q : Place}

theorem location_step (p : Place) (name : String) (inner : Folder) :
    location ⟨inner, (name, p.folder) :: p.trail⟩ = p.location ++ [name] := by
  simp [location]

/-- The folder of a place is what lies there. -/
theorem Below.entry?_location (h : Below root p) :
    root.entry? p.location = some (.folder p.folder) := by
  induction h with
  | top => rfl
  | step _ hname ih => rw [location_step, Folder.entry?_concat ih, hname]

theorem Below.up (h : Below root p) : Below root p.up ∧ p.up.location = p.location.dropLast := by
  cases h with
  | top => exact ⟨.top, rfl⟩
  | step h _ =>
    rw [location_step, List.dropLast_concat]
    exact ⟨h, rfl⟩

theorem below_of_step {segment : String} (h : Below root p) (hstep : p.step segment = .ok q) :
    Below root q ∧ q.location = walk p.location segment := by
  unfold step at hstep
  split at hstep
  · rename_i hidle
    obtain rfl := Except.ok.inj hstep
    exact ⟨h, (walk_idle hidle _).symm⟩
  split at hstep
  · rename_i hidle hup
    obtain rfl := Except.ok.inj hstep
    rw [walk, if_neg hidle, if_pos hup]
    exact h.up
  · rename_i hidle hup
    rw [walk, if_neg hidle, if_neg hup]
    split at hstep
    · cases hstep
    · cases hstep
    · cases hstep
    · rename_i inner hfind
      obtain rfl := Except.ok.inj hstep
      refine ⟨.step h ?_, location_step p segment inner⟩
      unfold find? at hfind
      split at hfind
      · cases hfind
      · exact Except.ok.inj hfind

theorem below_of_follow {list : List String} (h : Below root p) (hfollow : p.follow list = .ok q) :
    Below root q ∧ q.location = walkAll p.location list := by
  induction list generalizing p with
  | nil =>
    obtain rfl := Except.ok.inj hfollow
    exact ⟨h, rfl⟩
  | cons segment rest ih =>
    unfold follow at hfollow
    split at hfollow
    · cases hfollow
    · rename_i next hnext
      obtain ⟨hbelow, hlocation⟩ := below_of_step h hnext
      rw [walkAll_cons, ← hlocation]
      exact ih hbelow hfollow

end Place

namespace Disk

variable {d : Disk} {path : String} {place : Place} {name : String} {closed : Bool}

theorem below_of_start (h : d.start path = .ok place) :
    place.Below d.root ∧ place.location = origin d.working path := by
  unfold start at h
  dsimp only at h
  split at h
  · rename_i habsolute
    obtain rfl := Except.ok.inj h
    rw [origin, if_pos habsolute]
    exact ⟨.top, rfl⟩
  · rename_i habsolute
    rw [origin, if_neg habsolute]
    exact Place.below_of_follow .top h

/-- What a disk finds at the end of a path: the last segment that is not empty, at the place that the
segments before it lead to. -/
theorem exists_of_locate (h : d.locate path = .ok (.entry place name closed)) :
    place.Below d.root ∧ isIdle name = false ∧ name ≠ ".." ∧
      ∃ front blanks, segments path = front ++ name :: blanks ∧
        (∀ segment ∈ blanks, segment.isEmpty = true) ∧
        place.location = walkAll (origin d.working path) front := by
  unfold locate at h
  split at h
  · cases h
  split at h
  · cases h
  split at h
  · cases h
  split at h
  · cases h
  rename_i start hstart
  obtain ⟨hbelow, hlocation⟩ := below_of_start hstart
  split at h
  · cases h
  rename_i last front hsegments
  split at h
  · cases h
  rename_i found hfollow
  split at h
  · cases h
  split at h
  · cases h
  rename_i hdot hup
  cases h
  obtain ⟨hplace, hwalk⟩ := Place.below_of_follow hbelow hfollow
  obtain ⟨hname, blanks, hall, hblanks⟩ := exists_of_dropWhile_reverse hsegments
  refine ⟨hplace, ?_, by simpa using hup, front.reverse, blanks, hall, hblanks, ?_⟩
  · rw [isIdle, hname, Bool.false_or]
    simpa using hdot
  · rw [hwalk, hlocation]

theorem location_of_locate (h : d.locate path = .ok (.entry place name closed)) :
    place.location ++ [name] = resolve d.working path := by
  obtain ⟨-, hidle, hup, front, blanks, hsegments, hblanks, hlocation⟩ := exists_of_locate h
  rw [resolve, hsegments, walkAll_append, walkAll_cons, walkAll_blanks _ hblanks,
    walk_name hidle hup, hlocation]

end Disk

end SsisCompiler.Files
