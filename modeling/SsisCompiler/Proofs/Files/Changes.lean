import SsisCompiler.Files.Store
import SsisCompiler.Proofs.Files.Resolution

/-!
# What a program may change

A program that works on a store leaves all files as they are but for those at some places. The places
may depend on the working folder, which no program changes. Nothing is assumed about which actions
succeed: an action may do nothing, and a file that was not written to its end may hold anything.

Results:
* `Disk.changesOnly_makeFolder`, `Disk.changesOnly_put`: one action on a disk.
* `Confined.bind`: what two programs change, one after the other.
* `Store.ActsOn.ensureFolders`: making folders changes no file.
* `Store.ActsOn.writeText`: writing changes the file that the path leads to.
-/

namespace SsisCompiler.Files

/-! ## Disks -/

/-- The files of two disks are the same but for some places, given the working folder. -/
structure Disk.ChangesOnly (places : Location → Location → Prop) (d d' : Disk) : Prop where
  working : d'.working = d.working
  outside : ∀ location, ¬ places d.working location →
    d'.root.fileAt? location = d.root.fileAt? location

/-- No place at all. -/
abbrev nowhere (_ _ : Location) : Prop := False

namespace Disk

variable {places places' : Location → Location → Prop} {d d' d'' : Disk}

theorem ChangesOnly.refl (d : Disk) : ChangesOnly places d d :=
  ⟨rfl, fun _ _ => rfl⟩

theorem ChangesOnly.trans (h : ChangesOnly places d d') (h' : ChangesOnly places d' d'') :
    ChangesOnly places d d'' where
  working := h'.working.trans h.working
  outside location hout :=
    (h'.outside location (h.working ▸ hout)).trans (h.outside location hout)

theorem ChangesOnly.mono (h : ChangesOnly places d d')
    (hplaces : ∀ location, places d.working location → places' d.working location) :
    ChangesOnly places' d d' :=
  ⟨h.working, fun location hout => h.outside location (mt (hplaces location) hout)⟩

/-- What has a name at a place is what has it in the folder there. -/
theorem find?_of_place {place : Place} {name : String} {found : Option Entry}
    (h : place.find? name = .ok found) : place.folder.find? name = found := by
  unfold Place.find? at h
  split at h
  · cases h
  · exact Except.ok.inj h

/-- A new folder is empty, so no file changes. -/
theorem changesOnly_makeFolder {path : String} (h : d.makeFolder path = .ok d') :
    ChangesOnly nowhere d d' := by
  unfold makeFolder at h
  split at h
  · cases h
  · cases h
  rename_i place name closed hlocate
  split at h
  · cases h
  · cases h
  rename_i hfind
  obtain rfl := Except.ok.inj h
  have hway := (exists_of_locate hlocate).1.entry?_location
  exact ⟨rfl, fun location _ =>
    Folder.fileAt?_put_emptyFolder hway (find?_of_place hfind) location⟩

/-- A file that takes no folder's place changes what is seen at its own place only. -/
theorem changesOnly_put {place : Place} {name : String} (hbelow : place.Below d.root)
    (hname : ∀ inner, place.folder.find? name ≠ some (.folder inner)) (contents : Option String) :
    ChangesOnly (fun _ location => location = place.location ++ [name]) d
      (d.put place name (.file contents)) :=
  ⟨rfl, fun _ hne => Folder.fileAt?_put_file hbelow.entry?_location hname contents hne⟩

theorem exists_of_writeText {path text : String} (h : d.writeText path text = .ok d') :
    ∃ place name closed, d.locate path = .ok (.entry place name closed) ∧
      (∀ inner, place.folder.find? name ≠ some (.folder inner)) ∧
      d' = d.put place name (.file (some text)) := by
  unfold writeText at h
  split at h
  · cases h
  · cases h
  rename_i place name closed hlocate
  split at h
  · cases h
  split at h
  · cases h
  · cases h
  rename_i found hfound hfind
  refine ⟨place, name, closed, hlocate, fun inner hinner => ?_, (Except.ok.inj h).symm⟩
  rw [find?_of_place hfind] at hinner
  exact hfound inner hinner

end Disk

/-! ## Programs on a state -/

section

variable {σ α β : Type} {disk : σ → Disk} {places places' : Location → Location → Prop}

theorem run_bind_eq (m : StateM σ α) (f : α → StateM σ β) (s : σ) :
    (m >>= f).run s = (f (m.run s).1).run (m.run s).2 := rfl

/-- Whatever the state is, a program changes files at some places only. -/
def Confined (disk : σ → Disk) (places : Location → Location → Prop) (m : StateM σ α) : Prop :=
  ∀ s, (disk s).ChangesOnly places (disk (m.run s).2)

theorem Confined.pure (a : α) : Confined disk places (Pure.pure a) :=
  fun s => .refl (disk s)

theorem Confined.bind {m : StateM σ α} {f : α → StateM σ β} (hm : Confined disk places m)
    (hf : ∀ a, Confined disk places (f a)) : Confined disk places (m >>= f) :=
  fun s => (hm s).trans (hf _ _)

theorem Confined.mono {m : StateM σ α} (h : Confined disk places m)
    (hplaces : ∀ working location, places working location → places' working location) :
    Confined disk places' m :=
  fun s => (h s).mono (hplaces _)

theorem Confined.of_nowhere {m : StateM σ α} (h : Confined disk nowhere m) :
    Confined disk places m :=
  h.mono fun _ _ hplace => hplace.elim

end

/-! ## Stores -/

/-- The last segment of a path that is not empty is a name. -/
def EndsInName (path : String) : Prop :=
  ∃ front name blanks, segments path = front ++ name :: blanks ∧ isIdle name = false ∧
    ∀ segment ∈ blanks, segment.isEmpty = true

/-- If a path ends in a name, then so do its last segments, unless they are all empty. -/
theorem EndsInName.exists_mem {path : String} {list : List String} (h : EndsInName path)
    (hsuffix : list <:+ segments path) (hlist : ∃ segment ∈ list, segment.isEmpty = false) :
    ∃ name ∈ list, isIdle name = false := by
  obtain ⟨front, name, blanks, hsegments, hidle, hblanks⟩ := h
  obtain ⟨start, hstart⟩ := hsuffix
  rw [hsegments] at hstart
  rcases List.append_eq_append_iff.1 hstart with ⟨rest, -, rfl⟩ | ⟨rest, -, hrest⟩
  · exact ⟨name, by simp, hidle⟩
  cases rest with
  | nil =>
    rw [List.nil_append] at hrest
    exact ⟨name, hrest ▸ List.mem_cons_self, hidle⟩
  | cons first rest =>
    -- the name stands before the list, so all of the list is empty
    obtain ⟨segment, hsegment, hne⟩ := hlist
    obtain ⟨-, rfl⟩ := List.cons_eq_cons.1 hrest
    rw [hblanks segment (List.mem_append_right _ hsegment)] at hne
    cases hne

/-- The place that writing to a path may change. -/
def writtenPlace (path : String) (working location : Location) : Prop :=
  location = resolve working path ∧ EndsInName path

/-- A store that acts on a disk, as far as it acts at all: any action may fail, and a file that is
written may be left with any contents. A disk has no links, so a store on which a path may lead through
one is not meant. -/
structure Store.ActsOn {σ : Type} (store : Store (StateM σ)) (disk : σ → Disk) : Prop where
  readText_eq : ∀ path s, disk ((store.readText path).run s).2 = disk s
  isFolder_eq : ∀ path s, disk ((store.isFolder path).run s).2 = disk s
  makeFolder_cases : ∀ path s, disk ((store.makeFolder path).run s).2 = disk s ∨
    (disk s).makeFolder path = .ok (disk ((store.makeFolder path).run s).2)
  writeText_cases : ∀ path text s, disk ((store.writeText path text).run s).2 = disk s ∨
    ∃ place name closed contents, (disk s).locate path = .ok (.entry place name closed) ∧
      (∀ inner, place.folder.find? name ≠ some (.folder inner)) ∧
      disk ((store.writeText path text).run s).2 = (disk s).put place name (.file contents)

namespace Store

/-- A disk that is only a value is such a store. -/
theorem actsOn_ofDisk : ofDisk.ActsOn fun d => d where
  readText_eq _ _ := rfl
  isFolder_eq _ _ := rfl
  makeFolder_cases path d := by
    cases h : d.makeFolder path with
    | error e => exact Or.inl (by simp [ofDisk, h, StateT.run])
    | ok d' => exact Or.inr (by simp [ofDisk, h, StateT.run])
  writeText_cases path text d := by
    cases h : d.writeText path text with
    | error e => exact Or.inl (by simp [ofDisk, h, StateT.run])
    | ok d' =>
      obtain ⟨place, name, closed, hlocate, hname, rfl⟩ := Disk.exists_of_writeText h
      exact Or.inr ⟨place, name, closed, some text, hlocate, hname, by simp [ofDisk, h, StateT.run]⟩

namespace ActsOn

variable {σ : Type} {store : Store (StateM σ)} {disk : σ → Disk}

theorem isFolder (h : store.ActsOn disk) (path : String) :
    Confined disk nowhere (store.isFolder path) := by
  intro s
  rw [h.isFolder_eq]
  exact .refl _

theorem makeFolder (h : store.ActsOn disk) (path : String) :
    Confined disk nowhere (store.makeFolder path) := by
  intro s
  rcases h.makeFolder_cases path s with hsame | hmade
  · rw [hsame]
    exact .refl _
  · exact Disk.changesOnly_makeFolder hmade

theorem writeText (h : store.ActsOn disk) (path text : String) :
    Confined disk (writtenPlace path) (store.writeText path text) := by
  intro s
  rcases h.writeText_cases path text s with
    hsame | ⟨place, name, closed, contents, hlocate, hname, hput⟩
  · rw [hsame]
    exact .refl _
  · obtain ⟨hbelow, hidle, -, front, blanks, hsegments, hblanks, -⟩ :=
      Disk.exists_of_locate hlocate
    rw [hput]
    refine (Disk.changesOnly_put hbelow hname contents).mono ?_
    rintro location rfl
    exact ⟨Disk.location_of_locate hlocate, front, name, blanks, hsegments, hidle, hblanks⟩

theorem ensureFolder (h : store.ActsOn disk) (path : String) :
    Confined disk nowhere (store.ensureFolder path) := by
  refine (h.makeFolder path).bind fun outcome => ?_
  cases outcome with
  | none => exact .pure none
  | some e =>
    refine (h.isFolder path).bind fun isFolder => ?_
    split
    · exact .pure none
    · exact .pure (some e)

theorem ensureWithin (h : store.ActsOn disk) (limit : Nat) (path : String) :
    Confined disk nowhere (store.ensureWithin limit path) := by
  induction limit generalizing path with
  | zero => exact .pure none
  | succ limit ih =>
    unfold Store.ensureWithin
    split
    · exact .pure none
    · refine (h.ensureFolder path).bind fun outcome => ?_
      split
      · refine (ih (parent path)).bind fun outcome => ?_
        cases outcome with
        | none => exact h.ensureFolder path
        | some e => exact .pure (some e)
      · exact .pure _

/-- Making folders changes no file, whether it succeeds or not. -/
theorem ensureFolders (h : store.ActsOn disk) (path : String) :
    Confined disk nowhere (store.ensureFolders path) :=
  h.ensureWithin _ path

end ActsOn

end Store

end SsisCompiler.Files
