import SsisCompiler.Proofs.Files.Changes

/-!
# Reading what was written

A file that was written can be read under the same path, also after other things were done: no folder is
ever removed or replaced, so a path that led somewhere still leads there.

Results:
* `Disk.Keeps`: the folders that are there stay. Making folders and writing files keep them.
* `Disk.exists_locate_of_keeps`: a path leads to the same name as long as folders are kept.
* `Disk.readText_eq_ok_iff`: reading a path gives the file at the place that the path leads to.
* `Disk.readText_writeText`: what was written is read.
* `Store.keepsFolders_ensureFolders`: making all folders of a path keeps those that are there.
-/

namespace SsisCompiler.Files

/-! ## Folders stay -/

namespace Folder

/-- A folder lies at a place. -/
def HasFolder (f : Folder) (location : Location) : Prop :=
  ∃ inner, f.entry? location = some (.folder inner)

theorem hasFolder_nil (f : Folder) : f.HasFolder [] :=
  ⟨f, rfl⟩

theorem hasFolder_cons (f : Folder) (name : String) (rest : Location) :
    f.HasFolder (name :: rest) ↔
      ∃ inner, f.find? name = some (.folder inner) ∧ inner.HasFolder rest := by
  constructor
  · rintro ⟨inside, hinside⟩
    obtain ⟨inner, hname, hrest⟩ := exists_of_entry?_cons hinside
    exact ⟨inner, hname, inside, hrest⟩
  · rintro ⟨inner, hname, inside, hrest⟩
    exact ⟨inside, (entry?_cons_of_folder hname rest).trans hrest⟩

/-- What is put in the place of no folder leaves all folders where they are. -/
theorem hasFolder_put {f g : Folder} {way : Location} (h : f.entry? way = some (.folder g))
    {name : String} (hname : ∀ inner, g.find? name ≠ some (.folder inner)) (entry : Entry)
    {location : Location} (hfolder : f.HasFolder location) :
    (f.put entry (way ++ [name])).HasFolder location := by
  induction way generalizing f location with
  | nil =>
    cases location with
    | nil => exact hasFolder_nil _
    | cons other rest =>
      obtain ⟨inner, hother, hrest⟩ := (hasFolder_cons f other rest).1 hfolder
      have hne : name ≠ other := by
        rintro rfl
        cases h
        exact hname inner hother
      refine (hasFolder_cons _ other rest).2 ⟨inner, ?_, hrest⟩
      rw [List.nil_append, put, find?_set, if_neg hne, hother]
  | cons first way ih =>
    obtain ⟨next, hfirst, hway⟩ := exists_of_entry?_cons h
    rw [List.cons_append, put_cons hfirst entry (by simp)]
    cases location with
    | nil => exact hasFolder_nil _
    | cons other rest =>
      obtain ⟨inner, hother, hrest⟩ := (hasFolder_cons f other rest).1 hfolder
      rw [hasFolder_cons, find?_set]
      by_cases hsame : first = other
      · -- the folder on the way is replaced by one that has all its folders
        subst hsame
        obtain rfl : inner = next := by simpa [hfirst] using hother.symm
        exact ⟨_, if_pos rfl, ih hway hrest⟩
      · exact ⟨inner, by rw [if_neg hsame, hother], hrest⟩

end Folder

namespace Disk

variable {d d' d'' : Disk}

/-- The folders of one disk are folders of another, and one works in the same place. -/
structure Keeps (d d' : Disk) : Prop where
  working : d'.working = d.working
  folders : ∀ location, d.root.HasFolder location → d'.root.HasFolder location

theorem Keeps.refl (d : Disk) : Keeps d d :=
  ⟨rfl, fun _ => id⟩

theorem Keeps.trans (h : Keeps d d') (h' : Keeps d' d'') : Keeps d d'' :=
  ⟨h'.working.trans h.working, fun location hfolder => h'.folders location (h.folders location hfolder)⟩

theorem keeps_put {place : Place} {name : String} (hbelow : place.Below d.root)
    (hname : ∀ inner, place.folder.find? name ≠ some (.folder inner)) (entry : Entry) :
    Keeps d (d.put place name entry) :=
  ⟨rfl, fun _ hfolder => Folder.hasFolder_put hbelow.entry?_location hname entry hfolder⟩

theorem keeps_makeFolder {path : String} (h : d.makeFolder path = .ok d') : Keeps d d' := by
  unfold makeFolder at h
  split at h
  · cases h
  · cases h
  rename_i place name closed hlocate
  split at h
  · cases h
  · cases h
  rename_i hfind
  obtain rfl := Except.ok.inj h
  refine keeps_put (exists_of_locate hlocate).1 (fun inner hinner => ?_) _
  rw [find?_of_place hfind] at hinner
  cases hinner

theorem keeps_writeText {path text : String} (h : d.writeText path text = .ok d') : Keeps d d' := by
  obtain ⟨place, name, closed, hlocate, hname, rfl⟩ := exists_of_writeText h
  exact keeps_put (exists_of_locate hlocate).1 hname _

end Disk

/-! ## Paths still lead where they led -/

namespace Place

variable {root root' : Folder} {p p' q : Place}

theorem le_of_find? {name : String} {found : Option Entry} (h : p.find? name = .ok found) :
    name.utf8ByteSize ≤ nameLimit := by
  unfold find? at h
  split at h
  · cases h
  · rename_i hlimit
    exact Nat.le_of_not_lt hlimit

/-- One segment is followed from a place as it was from the same place before. -/
theorem exists_step_of_keeps
    (hkeeps : ∀ location, root.HasFolder location → root'.HasFolder location)
    (hp : p.Below root) (hp' : p'.Below root') (hlocation : p'.location = p.location)
    {segment : String} (h : p.step segment = .ok q) : ∃ q', p'.step segment = .ok q' := by
  unfold step at h ⊢
  split at h
  · rename_i hidle
    exact ⟨p', if_pos hidle⟩
  rename_i hidle
  rw [if_neg hidle]
  split at h
  · rename_i hup
    exact ⟨p'.up, if_pos hup⟩
  rename_i hup
  rw [if_neg hup]
  split at h
  · cases h
  · cases h
  · cases h
  rename_i inner hfind
  unfold find? at hfind ⊢
  split at hfind
  · cases hfind
  rename_i hlimit
  rw [if_neg hlimit]
  -- the place and the segment lead to a folder on the one disk, and so they do on the other
  have hfolder : root.entry? (p.location ++ [segment]) = some (.folder inner) := by
    rw [Folder.entry?_concat hp.entry?_location]
    exact Except.ok.inj hfind
  obtain ⟨inner', hinner'⟩ := hkeeps _ ⟨inner, hfolder⟩
  rw [← hlocation, Folder.entry?_concat hp'.entry?_location] at hinner'
  rw [hinner']
  exact ⟨_, rfl⟩

theorem exists_follow_of_keeps
    (hkeeps : ∀ location, root.HasFolder location → root'.HasFolder location)
    (hp : p.Below root) (hp' : p'.Below root') (hlocation : p'.location = p.location)
    {list : List String} (h : p.follow list = .ok q) : ∃ q', p'.follow list = .ok q' := by
  induction list generalizing p p' with
  | nil => exact ⟨p', rfl⟩
  | cons segment rest ih =>
    unfold follow at h ⊢
    split at h
    · cases h
    rename_i next hnext
    obtain ⟨next', hnext'⟩ := exists_step_of_keeps hkeeps hp hp' hlocation hnext
    obtain ⟨hbelow, hwalk⟩ := below_of_step hp hnext
    obtain ⟨hbelow', hwalk'⟩ := below_of_step hp' hnext'
    rw [hnext']
    exact ih hbelow hbelow' (by rw [hwalk', hwalk, hlocation]) h

end Place

namespace Disk

variable {d d' : Disk} {path text : String}

/-- A path is followed from the same place as long as folders are kept. -/
theorem exists_start_of_keeps (h : Keeps d d') {start : Place} (hstart : d.start path = .ok start) :
    ∃ start', d'.start path = .ok start' ∧ start'.location = start.location := by
  have hexists : ∃ start', d'.start path = .ok start' := by
    unfold Disk.start at hstart ⊢
    dsimp only at hstart ⊢
    split at hstart
    · rename_i habsolute
      exact ⟨_, if_pos habsolute⟩
    · rename_i habsolute
      rw [if_neg habsolute, h.working]
      exact Place.exists_follow_of_keeps h.folders .top .top rfl hstart
  obtain ⟨start', hstart'⟩ := hexists
  refine ⟨start', hstart', ?_⟩
  rw [(below_of_start hstart').2, (below_of_start hstart).2, h.working]

/-- A path leads to the same name as long as folders are kept. -/
theorem exists_locate_of_keeps (h : Keeps d d') {place : Place} {name : String} {closed : Bool}
    (hlocate : d.locate path = .ok (.entry place name closed)) :
    ∃ place', d'.locate path = .ok (.entry place' name closed) := by
  unfold locate at hlocate ⊢
  split at hlocate
  · cases hlocate
  rename_i hzero
  split at hlocate
  · cases hlocate
  rename_i hempty
  split at hlocate
  · cases hlocate
  rename_i hlimit
  rw [if_neg hzero, if_neg hempty, if_neg hlimit]
  split at hlocate
  · cases hlocate
  rename_i start hfrom
  obtain ⟨start', hfrom', hlocation⟩ := exists_start_of_keeps h hfrom
  rw [hfrom']
  dsimp only
  split at hlocate
  · cases hlocate
  rename_i last front hsegments
  split at hlocate
  · cases hlocate
  rename_i found hfollow
  obtain ⟨found', hfollow'⟩ := Place.exists_follow_of_keeps h.folders (below_of_start hfrom).1
    (below_of_start hfrom').1 hlocation hfollow
  rw [hfollow']
  dsimp only
  split at hlocate
  · cases hlocate
  rename_i hdot
  split at hlocate
  · cases hlocate
  rename_i hup
  rw [if_neg hdot, if_neg hup]
  cases hlocate
  exact ⟨found', rfl⟩

/-- A path leads to a name that may be looked for, in a folder that is there. -/
def Reaches (d : Disk) (path : String) : Prop :=
  ∃ place name, d.locate path = .ok (.entry place name false) ∧ name.utf8ByteSize ≤ nameLimit

theorem Reaches.of_keeps (hpath : d.Reaches path) (h : Keeps d d') : d'.Reaches path := by
  obtain ⟨place, name, hlocate, hlimit⟩ := hpath
  obtain ⟨place', hlocate'⟩ := exists_locate_of_keeps h hlocate
  exact ⟨place', name, hlocate', hlimit⟩

/-! ## Reading back -/

/-- The file at the place that a path leads to is what has the name there. -/
theorem fileAt?_resolve_iff {place : Place} {name : String} {closed : Bool}
    (hlocate : d.locate path = .ok (.entry place name closed)) (contents : Option String) :
    d.root.fileAt? (resolve d.working path) = some contents ↔
      place.folder.find? name = some (.file contents) := by
  rw [← location_of_locate hlocate,
    Folder.fileAt?_append (exists_of_locate hlocate).1.entry?_location, Folder.fileAt?_cons]
  cases place.folder.find? name with
  | none => simp
  | some entry =>
    cases entry with
    | file other =>
      rw [Option.bind_some]
      simp [Entry.fileAt?]
    | folder inside =>
      have hnone : (Entry.folder inside).fileAt? [] = none := rfl
      rw [Option.bind_some, hnone]
      simp

/-- Reading a path gives the file at the place that the path leads to. -/
theorem readText_eq_ok_iff (d : Disk) (path text : String) :
    d.readText path = .ok text ↔
      d.Reaches path ∧ d.root.fileAt? (resolve d.working path) = some (some text) := by
  constructor
  · intro h
    unfold readText at h
    split at h
    · cases h
    · cases h
    rename_i place name closed hlocate
    split at h
    · cases h
    · cases h
    · cases h
    rename_i contents hfind
    split at h
    · cases h
    rename_i hclosed
    obtain rfl : closed = false := by simpa using hclosed
    split at h
    · obtain rfl := Except.ok.inj h
      exact ⟨⟨place, name, hlocate, Place.le_of_find? hfind⟩,
        (fileAt?_resolve_iff hlocate _).2 (find?_of_place hfind)⟩
    · cases h
  · rintro ⟨⟨place, name, hlocate, hlimit⟩, hfile⟩
    have hfind : place.find? name = .ok (some (.file (some text))) := by
      rw [Place.find?, if_neg (Nat.not_lt_of_le hlimit), (fileAt?_resolve_iff hlocate _).1 hfile]
    simp only [readText, hlocate, hfind]
    rfl

/-- A file that was written is read under the same path. -/
theorem readText_writeText (h : d.writeText path text = .ok d') : d'.readText path = .ok text := by
  have hkeeps := keeps_writeText h
  rw [readText_eq_ok_iff]
  unfold writeText at h
  split at h
  · cases h
  · cases h
  rename_i place name closed hlocate
  split at h
  · cases h
  rename_i hclosed
  obtain rfl : closed = false := by simpa using hclosed
  split at h
  · cases h
  · cases h
  rename_i found _ hfind
  refine ⟨Reaches.of_keeps ⟨place, name, hlocate, Place.le_of_find? hfind⟩ hkeeps, ?_⟩
  obtain rfl := Except.ok.inj h
  show (d.root.put _ (place.location ++ [name])).fileAt? (resolve d.working path) = _
  rw [← location_of_locate hlocate,
    Folder.fileAt?_put_below (exists_of_locate hlocate).1.entry?_location]
  rfl

end Disk

/-! ## Programs that keep folders -/

/-- Whatever the disk is, a program keeps its folders. -/
def KeepsFolders {α : Type} (m : StateM Disk α) : Prop :=
  ∀ d : Disk, d.Keeps (m.run d).2

section

variable {α β : Type}

theorem KeepsFolders.pure (a : α) : KeepsFolders (Pure.pure a) :=
  fun d => .refl d

theorem KeepsFolders.bind {m : StateM Disk α} {f : α → StateM Disk β} (hm : KeepsFolders m)
    (hf : ∀ a, KeepsFolders (f a)) : KeepsFolders (m >>= f) :=
  fun d => (hm d).trans (hf _ _)

end

namespace Store

theorem run_writeText_of_ok {d d' : Disk} {path text : String} (h : d.writeText path text = .ok d') :
    (ofDisk.writeText path text).run d = (none, d') := by
  simp [ofDisk, h, StateT.run]

theorem run_writeText_of_error {d : Disk} {path text : String} {e : FileError}
    (h : d.writeText path text = .error e) :
    (ofDisk.writeText path text).run d = (some (.create, e), d) := by
  simp [ofDisk, h, StateT.run]

theorem keepsFolders_makeFolder (path : String) : KeepsFolders (ofDisk.makeFolder path) := by
  intro d
  rcases actsOn_ofDisk.makeFolder_cases path d with hsame | hmade
  · have hstays : ((ofDisk.makeFolder path).run d).2 = d := hsame
    rw [hstays]
    exact .refl d
  · exact Disk.keeps_makeFolder hmade

theorem keepsFolders_ensureFolder (path : String) : KeepsFolders (ofDisk.ensureFolder path) := by
  refine (keepsFolders_makeFolder path).bind fun outcome => ?_
  cases outcome with
  | none => exact .pure none
  | some e =>
    refine KeepsFolders.bind (fun d => .refl d) fun isFolder => ?_
    split
    · exact .pure none
    · exact .pure (some e)

theorem keepsFolders_ensureWithin (limit : Nat) (path : String) :
    KeepsFolders (ofDisk.ensureWithin limit path) := by
  induction limit generalizing path with
  | zero => exact .pure none
  | succ limit ih =>
    unfold ensureWithin
    split
    · exact .pure none
    · refine (keepsFolders_ensureFolder path).bind fun outcome => ?_
      split
      · refine (ih (parent path)).bind fun outcome => ?_
        cases outcome with
        | none => exact keepsFolders_ensureFolder path
        | some e => exact .pure (some e)
      · exact .pure _

theorem keepsFolders_ensureFolders (path : String) : KeepsFolders (ofDisk.ensureFolders path) :=
  keepsFolders_ensureWithin _ path

end Store

end SsisCompiler.Files
