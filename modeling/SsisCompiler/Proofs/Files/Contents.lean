import Mathlib.Data.List.Infix
import SsisCompiler.Files.Folder

/-!
# The files below a folder

What is seen of a folder are the files at its places. An entry that is put somewhere is seen there, and
nothing else is seen otherwise.

Results:
* `find?_set`: setting a name changes what has that name, and nothing else.
* `fileAt?_cons`: a file is looked for name by name.
* `fileAt?_put_below`, `fileAt?_put_outside`: the files after an entry was put at a place.
* `fileAt?_put_file`, `fileAt?_put_emptyFolder`: a new file changes one place, a new folder none.
-/

namespace SsisCompiler.Files

/-! ## Entries -/

namespace Folder

theorem find?_set (f : Folder) (name other : String) (entry : Entry) :
    (f.set name entry).find? other = if name = other then some entry else f.find? other := by
  have hadd : ∀ rest : Folder, (rest.add name entry).find? other =
      if name = other then some entry else rest.find? other := by
    intro rest
    cases entry <;> simp [add, find?]
  induction f with
  | empty => exact hadd empty
  | file first text rest ih => grind [set, find?]
  | folder first inside rest _ ih => grind [set, find?]

theorem entry?_cons_of_folder {f inner : Folder} {name : String}
    (h : f.find? name = some (.folder inner)) (rest : Location) :
    f.entry? (name :: rest) = inner.entry? rest := by
  cases rest with
  | nil => exact h
  | cons next rest => simp only [h, entry?]

/-- The first name on the way to a folder is that of a folder. -/
theorem exists_of_entry?_cons {f g : Folder} {name : String} {rest : Location}
    (h : f.entry? (name :: rest) = some (.folder g)) :
    ∃ inner, f.find? name = some (.folder inner) ∧ inner.entry? rest = some (.folder g) := by
  cases rest with
  | nil => exact ⟨g, h, rfl⟩
  | cons next rest =>
    unfold entry? at h
    split at h
    · rename_i inner hinner
      exact ⟨inner, hinner, h⟩
    · cases h

theorem entry?_concat {f g : Folder} {way : Location} (h : f.entry? way = some (.folder g))
    (name : String) : f.entry? (way ++ [name]) = g.find? name := by
  induction way generalizing f with
  | nil =>
    cases h
    rfl
  | cons first way ih =>
    obtain ⟨inner, hfirst, hinner⟩ := exists_of_entry?_cons h
    rw [List.cons_append, entry?_cons_of_folder hfirst, ih hinner]

theorem put_cons {f inner : Folder} {name : String} (h : f.find? name = some (.folder inner))
    (entry : Entry) {rest : Location} (hrest : rest ≠ []) :
    f.put entry (name :: rest) = f.set name (.folder (inner.put entry rest)) := by
  cases rest with
  | nil => exact absurd rfl hrest
  | cons next rest => simp only [put, inside, h]

end Folder

/-! ## Files -/

/-- The file at a place. -/
def Folder.fileAt? (f : Folder) (location : Location) : Option (Option String) :=
  match f.entry? location with
  | some (.file text) => some text
  | _ => none

/-- The file at a place below an entry. There is nothing below a file. -/
def Entry.fileAt? : Entry → Location → Option (Option String)
  | .file text, [] => some text
  | .file _, _ :: _ => none
  | .folder inside, location => inside.fileAt? location

namespace Folder

theorem fileAt?_cons (f : Folder) (name : String) (rest : Location) :
    f.fileAt? (name :: rest) = (f.find? name).bind (·.fileAt? rest) := by
  unfold fileAt?
  cases hname : f.find? name with
  | none => cases rest <;> simp only [hname, entry?] <;> rfl
  | some entry =>
    cases entry with
    | file text => cases rest <;> simp only [hname, entry?] <;> rfl
    | folder inner =>
      rw [entry?_cons_of_folder hname]
      rfl

theorem fileAt?_empty (location : Location) : empty.fileAt? location = none := by
  cases location with
  | nil => rfl
  | cons name rest => rw [fileAt?_cons, find?, Option.bind_none]

theorem fileAt?_set (f : Folder) (name other : String) (entry : Entry) (rest : Location) :
    (f.set name entry).fileAt? (other :: rest) =
      if name = other then entry.fileAt? rest else f.fileAt? (other :: rest) := by
  rw [fileAt?_cons, find?_set, fileAt?_cons]
  split <;> rfl

theorem fileAt?_append {f g : Folder} {way : Location} (h : f.entry? way = some (.folder g))
    (rest : Location) : f.fileAt? (way ++ rest) = g.fileAt? rest := by
  induction way generalizing f with
  | nil =>
    cases h
    rfl
  | cons first way ih =>
    obtain ⟨inner, hfirst, hinner⟩ := exists_of_entry?_cons h
    rw [List.cons_append, fileAt?_cons, hfirst]
    exact ih hinner

section Put

variable {f g : Folder} {way : Location}

/-- Below the place where an entry was put, what is seen is the entry. -/
theorem fileAt?_put_below (h : f.entry? way = some (.folder g)) (entry : Entry) (name : String)
    (rest : Location) :
    (f.put entry (way ++ [name])).fileAt? (way ++ name :: rest) = entry.fileAt? rest := by
  induction way generalizing f with
  | nil => rw [List.nil_append, put, List.nil_append, fileAt?_set, if_pos rfl]
  | cons first way ih =>
    obtain ⟨inner, hfirst, hinner⟩ := exists_of_entry?_cons h
    rw [List.cons_append, put_cons hfirst entry (by simp), List.cons_append, fileAt?_set, if_pos rfl]
    exact ih hinner

/-- Everywhere else, what is seen is what was there. -/
theorem fileAt?_put_outside (h : f.entry? way = some (.folder g)) (entry : Entry) (name : String)
    {location : Location} (hout : ¬ way ++ [name] <+: location) :
    (f.put entry (way ++ [name])).fileAt? location = f.fileAt? location := by
  induction way generalizing f location with
  | nil =>
    cases location with
    | nil => rfl
    | cons other rest =>
      rw [List.nil_append, put, fileAt?_set, if_neg]
      rintro rfl
      exact hout (by simp)
  | cons first way ih =>
    obtain ⟨inner, hfirst, hinner⟩ := exists_of_entry?_cons h
    rw [List.cons_append] at hout ⊢
    rw [put_cons hfirst entry (by simp)]
    cases location with
    | nil => rfl
    | cons other rest =>
      rw [fileAt?_set]
      split
      · rename_i hsame
        subst hsame
        rw [fileAt?_cons, hfirst]
        exact ih hinner fun hrest => hout (List.cons_prefix_cons.2 ⟨rfl, hrest⟩)
      · rfl

/-- A file put where no folder is changes what is seen at its own place only. -/
theorem fileAt?_put_file (h : f.entry? way = some (.folder g)) {name : String}
    (hname : ∀ inner, g.find? name ≠ some (.folder inner)) (text : Option String)
    {location : Location} (hne : location ≠ way ++ [name]) :
    (f.put (.file text) (way ++ [name])).fileAt? location = f.fileAt? location := by
  by_cases hbelow : way ++ [name] <+: location
  · obtain ⟨rest, rfl⟩ := hbelow
    rw [List.append_assoc, List.singleton_append] at hne ⊢
    rw [fileAt?_put_below h, fileAt?_append h, fileAt?_cons]
    -- nothing was below the place before, and nothing is below a file
    cases rest with
    | nil => exact absurd rfl hne
    | cons next rest =>
      cases hentry : g.find? name with
      | none => rfl
      | some entry =>
        cases entry with
        | file text => rfl
        | folder inner => exact absurd hentry (hname inner)
  · exact fileAt?_put_outside h _ name hbelow

/-- An empty folder put where nothing is changes nothing that is seen. -/
theorem fileAt?_put_emptyFolder (h : f.entry? way = some (.folder g)) {name : String}
    (hname : g.find? name = none) (location : Location) :
    (f.put (.folder .empty) (way ++ [name])).fileAt? location = f.fileAt? location := by
  by_cases hbelow : way ++ [name] <+: location
  · obtain ⟨rest, rfl⟩ := hbelow
    rw [List.append_assoc, List.singleton_append, fileAt?_put_below h, fileAt?_append h,
      fileAt?_cons, hname]
    exact fileAt?_empty rest
  · exact fileAt?_put_outside h _ name hbelow

end Put

end Folder

end SsisCompiler.Files
