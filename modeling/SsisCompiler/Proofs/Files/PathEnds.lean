import SsisCompiler.Proofs.Files.Extensions
import SsisCompiler.Proofs.Files.ReadBack

/-!
# What can be made at the end of a path

All segments of a path but the last one lead to a place; what can be made at the end of the path depends
on what one step along the last segment finds there. A folder stays, nothing becomes a new folder, and
a file is in the way. A file can be written into the folder then, unless a folder has its name.

Results:
* `Disk.exists_leads_of_readText`: a path that is read leads to the place of a file.
* `Disk.Leads.sibling`, `Disk.Leads.join`: paths that lead to the same place, and one segment further.
* `Disk.Leads.exists_of_keeps`: a path leads to the same place as long as folders are kept.
* `Disk.Leads.ensureFolders_of_file`, `Disk.Leads.ensureFolders_of_no_file`: making the folder at the
  end of a path.
* `Disk.Leads.exists_writeText_iff`: when a file can be written into that folder.
-/

namespace SsisCompiler.Files

/-! ## Steps -/

namespace Place

variable {p q : Place} {name : String}

theorem follow_concat {front : List String} (h : p.follow front = .ok q) (segment : String) :
    p.follow (front ++ [segment]) = q.step segment := by
  induction front generalizing p with
  | nil =>
    obtain rfl := Except.ok.inj h
    rw [List.nil_append, follow]
    cases p.step segment <;> rfl
  | cons first front ih =>
    rw [List.cons_append, follow]
    rw [follow] at h
    cases hfirst : p.step first with
    | error e =>
      rw [hfirst] at h
      cases h
    | ok next =>
      rw [hfirst] at h
      exact ih h

theorem step_up (p : Place) : p.step ".." = .ok p.up := by
  simp [step, isIdle]

theorem find?_of_le (h : name.utf8ByteSize ≤ nameLimit) (p : Place) :
    p.find? name = .ok (p.folder.find? name) := by
  rw [find?, if_neg (Nat.not_lt_of_le h)]

theorem step_of_folder (hidle : isIdle name = false) (hup : name ≠ "..")
    (hlimit : name.utf8ByteSize ≤ nameLimit) {inner : Folder}
    (h : p.folder.find? name = some (.folder inner)) :
    p.step name = .ok ⟨inner, (name, p.folder) :: p.trail⟩ := by
  simp [step, hidle, hup, find?_of_le hlimit, h]

end Place

theorem walk_up (location : Location) : walk location ".." = location.dropLast := by
  simp [walk, isIdle]

/-! ## Paths that lead to a place -/

theorem utf8ByteSize_le_of_isPrefix {s t : String} (h : s.toList <+: t.toList) :
    s.utf8ByteSize ≤ t.utf8ByteSize := by
  obtain ⟨rest, hrest⟩ := h
  have ht : t = s ++ String.ofList rest := by
    rw [← String.toList_inj, String.toList_append, String.toList_ofList, hrest]
  rw [ht, String.utf8ByteSize_append]
  exact Nat.le_add_right _ _

theorem ne_empty_of_isIdle {segment : String} (h : isIdle segment = false) : segment ≠ "" := by
  rintro rfl
  cases h

/-- All segments of a path but the last one lead to a place, and the text of the path is in order. -/
structure Disk.Leads (d : Disk) (path : String) (front : List String) (last : String) (place : Place) :
    Prop where
  segments_eq : segments path = front ++ [last]
  noZero : '\x00' ∉ path.toList
  fits : path.utf8ByteSize ≤ pathLimit
  follows : ∃ start, d.start path = .ok start ∧ start.follow front = .ok place

theorem getLast?_lead {front : List String} (h : front ≠ []) : (lead front).getLast? = some '/' := by
  obtain ⟨others, segment, rfl⟩ := (List.eq_nil_or_concat front).resolve_left h
  rw [List.concat_eq_append, lead, List.flatMap_append]
  simp [List.getLast?_append]

/-- A path ends in a slash exactly if its last segment is empty and not the only one. -/
theorem getLast?_of_segments {path last : String} {front : List String}
    (h : segments path = front ++ [last]) :
    path.toList.getLast? = some '/' ↔ last = "" ∧ front ≠ [] := by
  rw [toList_of_segments h]
  by_cases hlast : last = ""
  · subst hlast
    by_cases hfront : front = []
    · subst hfront
      simp [lead]
    · simp [getLast?_lead hfront, hfront]
  · have hchars : last.toList ≠ [] := by simpa using hlast
    rw [List.getLast?_append_of_ne_nil _ hchars]
    refine iff_of_false (fun hslash => ?_) (fun h => hlast h.1)
    exact (slash_not_mem_of_segments h).2 (List.mem_of_getLast? hslash)

namespace Disk

variable {d d' : Disk} {path last name text : String} {front : List String} {place q : Place}

theorem start_congr {other : String} (h : isAbsolute path = isAbsolute other) :
    d.start path = d.start other := by
  rw [start, start, h]

/-- A path that leads to a name without a slash behind it. -/
theorem exists_leads_of_locate (h : d.locate path = .ok (.entry place name false)) :
    ∃ front, d.Leads path front name place ∧ isIdle name = false ∧ name ≠ ".." := by
  obtain ⟨-, hidle, hup, -⟩ := exists_of_locate h
  unfold locate at h
  split at h
  · cases h
  rename_i hzero
  split at h
  · cases h
  split at h
  · cases h
  rename_i hlimit
  split at h
  · cases h
  rename_i start hstart
  split at h
  · cases h
  rename_i last front hdrop
  split at h
  · cases h
  rename_i found hfollow
  split at h
  · cases h
  split at h
  · cases h
  rw [Except.ok.injEq, Target.entry.injEq] at h
  obtain ⟨rfl, rfl, hclosed⟩ := h
  obtain ⟨hlast, back, hsegments, hback⟩ := exists_of_dropWhile_reverse hdrop
  -- an empty segment at the end would be a slash behind the name
  have hnil : back = [] := by
    by_contra hne
    obtain ⟨others, segment, rfl⟩ := (List.eq_nil_or_concat back).resolve_left hne
    have hempty : segment = "" := String.isEmpty_iff.1 (hback segment (by simp))
    subst hempty
    have hall : segments path = (front.reverse ++ last :: others) ++ [""] := by
      rw [hsegments]
      simp
    rw [(getLast?_of_segments hall).2 ⟨rfl, by simp⟩] at hclosed
    cases hclosed
  subst hnil
  exact ⟨front.reverse, ⟨hsegments, by simpa using hzero, Nat.le_of_not_lt hlimit, start, hstart,
    hfollow⟩, hidle, hup⟩

/-- A path that is read leads to the place of a file. -/
theorem exists_leads_of_readText (h : d.readText path = .ok text) :
    ∃ front name place, d.Leads path front name place ∧ isIdle name = false ∧ name ≠ ".." ∧
      name.utf8ByteSize ≤ nameLimit ∧ place.folder.find? name = some (.file (some text)) := by
  obtain ⟨⟨place, name, hlocate, hlimit⟩, hfile⟩ := (readText_eq_ok_iff d path text).1 h
  obtain ⟨front, hleads, hidle, hup⟩ := exists_leads_of_locate hlocate
  exact ⟨front, name, place, hleads, hidle, hup, hlimit, (fileAt?_resolve_iff hlocate _).1 hfile⟩

namespace Leads

/-- Another path with the same segments before its last one leads to the same place. -/
theorem sibling (h : d.Leads path front last place) {other : String}
    (hsegments : segments other = front ++ [name]) (hother : other.toList <+: path.toList) :
    d.Leads other front name place where
  segments_eq := hsegments
  noZero hmem := h.noZero (hother.subset hmem)
  fits := (utf8ByteSize_le_of_isPrefix hother).trans h.fits
  follows := by
    obtain ⟨start, hstart, hfollow⟩ := h.follows
    refine ⟨start, ?_, hfollow⟩
    rw [← hstart]
    refine start_congr (Bool.eq_iff_iff.2 ?_)
    rw [isAbsolute_of_segments hsegments, isAbsolute_of_segments h.segments_eq]

theorem below (h : d.Leads path front last place) :
    place.Below d.root ∧ place.location = walkAll (origin d.working path) front := by
  obtain ⟨start, hstart, hfollow⟩ := h.follows
  obtain ⟨hbelow, hlocation⟩ := below_of_start hstart
  rw [← hlocation]
  exact Place.below_of_follow hbelow hfollow

/-- Where a path leads, in one step from its place. -/
theorem resolve_eq (h : d.Leads path front last place) :
    resolve d.working path = walk place.location last := by
  rw [resolve, h.segments_eq, walkAll_append, h.below.2]
  rfl

/-- One segment further. -/
theorem join (h : d.Leads path front last place) (hlast : last ≠ "") (hstep : place.step last = .ok q)
    (hslash : '/' ∉ name.toList) (hzero : '\x00' ∉ name.toList)
    (hfits : (Files.join path name).utf8ByteSize ≤ pathLimit) :
    d.Leads (Files.join path name) (front ++ [last]) name q := by
  have habsolute : isAbsolute name = false := by
    rw [isAbsolute, beq_eq_false_iff_ne]
    exact fun hhead => hslash (List.mem_of_head? hhead)
  have hjoin : Files.join path name = String.ofList (path.toList ++ '/' :: name.toList) := by
    rcases join_cases path habsolute with ⟨rfl, -⟩ | ⟨others, rfl, -⟩ | ⟨-, hjoin⟩
    · have hchars := toList_of_segments h.segments_eq
      exact absurd (List.append_eq_nil_iff.1 hchars.symm).2 (by simpa using hlast)
    · exact absurd ((getLast?_of_segments h.segments_eq).1 (by simp)).1 hlast
    · exact hjoin
  refine ⟨?_, ?_, hfits, ?_⟩
  · rw [hjoin, segments_slash, String.ofList_toList, String.ofList_toList, h.segments_eq,
      segments_of_not_mem hslash]
  · rw [hjoin, String.toList_ofList]
    simp [h.noZero, hzero]
  · obtain ⟨start, hstart, hfollow⟩ := h.follows
    refine ⟨start, ?_, ?_⟩
    · rw [← hstart, start_congr (isAbsolute_join path habsolute)]
    · rw [Place.follow_concat hfollow, hstep]

/-- A path leads to the same place as long as folders are kept. -/
theorem exists_of_keeps (h : d.Leads path front last place) (hkeeps : d.Keeps d') :
    ∃ place', d'.Leads path front last place' ∧ place'.location = place.location := by
  obtain ⟨start, hstart, hfollow⟩ := h.follows
  obtain ⟨start', hstart', hlocation⟩ := exists_start_of_keeps hkeeps hstart
  obtain ⟨place', hfollow'⟩ := Place.exists_follow_of_keeps hkeeps.folders (below_of_start hstart).1
    (below_of_start hstart').1 hlocation hfollow
  have hleads : d'.Leads path front last place' :=
    ⟨h.segments_eq, h.noZero, h.fits, start', hstart', hfollow'⟩
  refine ⟨place', hleads, ?_⟩
  rw [hleads.below.2, h.below.2, hkeeps.working]

theorem isEmpty_eq (h : d.Leads path front last place) (hlast : last ≠ "") : path.isEmpty = false := by
  rw [Bool.eq_false_iff, ne_eq, String.isEmpty_iff, ← String.toList_eq_nil_iff,
    toList_of_segments h.segments_eq, List.append_eq_nil_iff]
  exact fun hchars => hlast (String.toList_eq_nil_iff.1 hchars.2)

/-- What a disk finds at the end of such a path. -/
theorem locate_eq (h : d.Leads path front last place) (hidle : isIdle last = false) :
    d.locate path =
      if last = ".." then .ok (.folder place.up) else .ok (.entry place last false) := by
  obtain ⟨hempty, hdot⟩ : last.isEmpty = false ∧ (last == ".") = false := by
    simpa [isIdle] using hidle
  have hlast := ne_empty_of_isIdle hidle
  obtain ⟨start, hstart, hfollow⟩ := h.follows
  have hdrop : (segments path).reverse.dropWhile (·.isEmpty) = last :: front.reverse := by
    rw [h.segments_eq, List.reverse_append, List.reverse_singleton, List.singleton_append,
      List.dropWhile_cons, if_neg (by simp [hempty])]
  have hclosed : (path.toList.getLast? == some '/') = false :=
    beq_eq_false_iff_ne.2 fun hslash => hlast ((getLast?_of_segments h.segments_eq).1 hslash).1
  have hzero : path.toList.contains '\x00' = false := by simpa using h.noZero
  have hlimit : ¬ pathLimit < path.utf8ByteSize := Nat.not_lt_of_le h.fits
  simp only [locate, hzero, h.isEmpty_eq hlast, hlimit, hstart, hdrop, List.reverse_reverse, hfollow,
    hdot, hclosed, beq_iff_eq, Bool.false_eq_true, if_false]

end Leads

end Disk

/-! ## Making the folder at the end of a path -/

namespace Folder

theorem HasFolder.of_append {f : Folder} {way rest : Location} (h : f.HasFolder (way ++ rest)) :
    f.HasFolder way := by
  induction way generalizing f with
  | nil => exact hasFolder_nil f
  | cons name way ih =>
    rw [List.cons_append, hasFolder_cons] at h
    obtain ⟨inner, hname, hrest⟩ := h
    exact (hasFolder_cons f name way).2 ⟨inner, hname, ih hrest⟩

/-- What was put at a place lies there. -/
theorem entry?_put {f g : Folder} {way : Location} (h : f.entry? way = some (.folder g)) (entry : Entry)
    (name : String) : entry? (f.put entry (way ++ [name])) (way ++ [name]) = some entry := by
  induction way generalizing f with
  | nil =>
    show (f.set name entry).find? name = some entry
    rw [find?_set, if_pos rfl]
  | cons first way ih =>
    obtain ⟨inner, hfirst, hinner⟩ := exists_of_entry?_cons h
    rw [List.cons_append, put_cons hfirst entry (by simp), entry?_cons_of_folder]
    · exact ih hinner
    · rw [find?_set, if_pos rfl]

end Folder

namespace Store

variable {d d' : Disk} {path : String}

theorem run_ensureFolder_of_ok (h : d.makeFolder path = .ok d') :
    (ofDisk.ensureFolder path).run d = (none, d') := by
  have hrun : (ofDisk.makeFolder path).run d = (none, d') := by
    simp [ofDisk, h, StateT.run]
  rw [ensureFolder, run_bind_eq, hrun]
  rfl

theorem run_ensureFolder_of_error {e : FileError} (h : d.makeFolder path = .error e) :
    (ofDisk.ensureFolder path).run d = (if d.isFolder path then none else some e, d) := by
  have hrun : (ofDisk.makeFolder path).run d = (some e, d) := by
    simp [ofDisk, h, StateT.run]
  rw [ensureFolder, run_bind_eq, hrun]
  dsimp only
  rw [run_bind_eq]
  have hfolder : (ofDisk.isFolder path).run d = (d.isFolder path, d) := rfl
  rw [hfolder]
  cases d.isFolder path <;> rfl

/-- No folder on the way is made unless the first attempt fails for want of one. -/
theorem run_ensureFolders_eq (hempty : path.isEmpty = false) {outcome : Option FileError}
    (h : (ofDisk.ensureFolder path).run d = (outcome, d')) (hne : outcome ≠ some .notFound) :
    (ofDisk.ensureFolders path).run d = (outcome, d') := by
  rw [ensureFolders, ensureWithin, hempty, if_neg Bool.false_ne_true, run_bind_eq, h]
  dsimp only
  split
  · exact absurd rfl hne
  · rfl

end Store

namespace Disk.Leads

variable {d : Disk} {path last : String} {front : List String} {place q : Place}

section

variable (h : d.Leads path front last place) (hidle : isIdle last = false)
  (hlimit : last.utf8ByteSize ≤ nameLimit)

include h hidle hlimit

/-- What becomes of the folder at the end of a path, by what one step finds there. -/
theorem ensureFolders_cases :
    (∃ q, place.step last = .ok q ∧ (Store.ofDisk.ensureFolders path).run d = (none, d)) ∨
    (last ≠ ".." ∧ place.folder.find? last = none ∧
      (Store.ofDisk.ensureFolders path).run d = (none, d.put place last (.folder .empty))) ∨
    (last ≠ ".." ∧ (∃ contents, place.folder.find? last = some (.file contents)) ∧
      (Store.ofDisk.ensureFolders path).run d = (some .alreadyExists, d)) := by
  have hempty := h.isEmpty_eq (ne_empty_of_isIdle hidle)
  have hlocate := h.locate_eq hidle
  have hfind := Place.find?_of_le hlimit place
  have hthere : d.makeFolder path = .error .alreadyExists → d.isFolder path = true →
      (Store.ofDisk.ensureFolders path).run d = (none, d) := by
    intro hmake hfolder
    refine Store.run_ensureFolders_eq hempty ?_ (by simp)
    rw [Store.run_ensureFolder_of_error hmake, if_pos hfolder]
  by_cases hup : last = ".."
  · rw [if_pos hup] at hlocate
    refine .inl ⟨place.up, ?_, hthere (by simp [makeFolder, hlocate]) (by simp [isFolder, hlocate])⟩
    rw [hup, Place.step_up]
  rw [if_neg hup] at hlocate
  cases hname : place.folder.find? last with
  | none =>
    rw [hname] at hfind
    refine .inr (.inl ⟨hup, rfl, Store.run_ensureFolders_eq hempty ?_ (by simp)⟩)
    exact Store.run_ensureFolder_of_ok (by simp [makeFolder, hlocate, hfind])
  | some entry =>
    rw [hname] at hfind
    have hmake : d.makeFolder path = .error .alreadyExists := by simp [makeFolder, hlocate, hfind]
    cases entry with
    | file contents =>
      refine .inr (.inr ⟨hup, ⟨contents, rfl⟩, Store.run_ensureFolders_eq hempty ?_ (by simp)⟩)
      rw [Store.run_ensureFolder_of_error hmake, if_neg (by simp [isFolder, hlocate, hfind])]
    | folder inner =>
      exact .inl ⟨_, Place.step_of_folder hidle hup hlimit hname,
        hthere hmake (by simp [isFolder, hlocate, hfind])⟩

/-- Making the folder at the end of a path fails if there is a file. -/
theorem ensureFolders_of_file {contents : Option String}
    (hfile : d.root.fileAt? (resolve d.working path) = some contents) :
    (Store.ofDisk.ensureFolders path).run d = (some .alreadyExists, d) := by
  obtain ⟨hbelow, -⟩ := h.below
  rcases h.ensureFolders_cases hidle hlimit with ⟨q, hstep, -⟩ | ⟨hup, hnone, -⟩ | ⟨-, -, hrun⟩
  · obtain ⟨hq, hlocation⟩ := Place.below_of_step hbelow hstep
    rw [h.resolve_eq, ← hlocation, ← List.append_nil q.location,
      Folder.fileAt?_append hq.entry?_location] at hfile
    cases hfile
  · rw [h.resolve_eq, walk_name hidle hup, Folder.fileAt?_append hbelow.entry?_location,
      Folder.fileAt?_cons, hnone] at hfile
    cases hfile
  · exact hrun

/-- If there is no file, then the path leads to a folder afterwards, and the folders in it were there. -/
theorem ensureFolders_of_no_file (hfile : d.root.fileAt? (resolve d.working path) = none) :
    ∃ d' place' q, (Store.ofDisk.ensureFolders path).run d = (none, d') ∧
      d'.Leads path front last place' ∧ place'.step last = .ok q ∧
      ∀ name, d'.root.HasFolder (resolve d.working path ++ [name]) ↔
        d.root.HasFolder (resolve d.working path ++ [name]) := by
  obtain ⟨hbelow, -⟩ := h.below
  rcases h.ensureFolders_cases hidle hlimit with ⟨q, hstep, hrun⟩ | ⟨hup, hnone, hrun⟩ |
    ⟨hup, ⟨contents, hcontents⟩, -⟩
  · exact ⟨d, place, q, hrun, h, hstep, fun name => Iff.rfl⟩
  · have hresolve : resolve d.working path = place.location ++ [last] := by
      rw [h.resolve_eq, walk_name hidle hup]
    have hput := Folder.entry?_put hbelow.entry?_location (.folder .empty) last
    have hkeeps : d.Keeps (d.put place last (.folder .empty)) :=
      keeps_put hbelow (fun inner hinner => by rw [hnone] at hinner; cases hinner) _
    obtain ⟨place', hleads, hlocation⟩ := h.exists_of_keeps hkeeps
    have hfind : place'.folder.find? last = some (.folder .empty) := by
      rw [← Folder.entry?_concat hleads.below.1.entry?_location, hlocation]
      exact hput
    refine ⟨_, place', _, hrun, hleads, Place.step_of_folder hidle hup hlimit hfind, fun name => ?_⟩
    -- there is nothing in the new folder, and there was nothing in its place
    rw [hresolve]
    refine iff_of_false ?_ fun hfolder => ?_
    · rintro ⟨inner, hinner⟩
      rw [Folder.entry?_concat (f := (d.put place last (.folder .empty)).root) hput] at hinner
      cases hinner
    · obtain ⟨inner, hinner⟩ := hfolder.of_append
      rw [Folder.entry?_concat hbelow.entry?_location, hnone] at hinner
      cases hinner
  · rw [h.resolve_eq, walk_name hidle hup, Folder.fileAt?_append hbelow.entry?_location,
      Folder.fileAt?_cons, hcontents] at hfile
    cases hfile

end

/-! ## Writing a file in the folder at the end of a path -/

/-- A file can be written in a folder unless its path is too long or a folder has its name. -/
theorem exists_writeText_iff (h : d.Leads path front last place) (hlast : last ≠ "")
    (hstep : place.step last = .ok q) {name : String} (hidle : isIdle name = false) (hup : name ≠ "..")
    (hlimit : name.utf8ByteSize ≤ nameLimit) (hslash : '/' ∉ name.toList)
    (hzero : '\x00' ∉ name.toList) (text : String) :
    (∃ d', d.writeText (Files.join path name) text = .ok d') ↔
      (Files.join path name).utf8ByteSize ≤ pathLimit ∧
        ¬ d.root.HasFolder (resolve d.working path ++ [name]) := by
  obtain ⟨hbelow, hlocation⟩ := Place.below_of_step h.below.1 hstep
  rw [← h.resolve_eq] at hlocation
  have hfolder : d.root.HasFolder (resolve d.working path ++ [name]) ↔
      ∃ inner, q.folder.find? name = some (.folder inner) := by
    rw [← hlocation, Folder.HasFolder, Folder.entry?_concat hbelow.entry?_location]
  have hlocate : (Files.join path name).utf8ByteSize ≤ pathLimit →
      d.locate (Files.join path name) = .ok (.entry q name false) := by
    intro hfits
    rw [(h.join hlast hstep hslash hzero hfits).locate_eq hidle, if_neg hup]
  rw [hfolder, not_exists]
  constructor
  · rintro ⟨d', hwrite⟩
    obtain ⟨_, _, _, hleads, -⟩ := exists_leads_of_readText (readText_writeText hwrite)
    refine ⟨hleads.fits, ?_⟩
    obtain ⟨place, found, closed, hfound, hname, -⟩ := exists_of_writeText hwrite
    rw [hlocate hleads.fits, Except.ok.injEq, Target.entry.injEq] at hfound
    obtain ⟨rfl, rfl, -⟩ := hfound
    exact hname
  · rintro ⟨hfits, hname⟩
    refine ⟨d.put q name (.file (some text)), ?_⟩
    simp only [writeText, hlocate hfits, Place.find?_of_le hlimit, Bool.false_eq_true, if_false]

end Disk.Leads

end SsisCompiler.Files
