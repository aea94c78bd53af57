import SsisCompiler.Proofs.Files.ReadBack
import SsisCompiler.Proofs.Generate.Confinement

/-!
# The files of the scripts

Scripts are written one after the other, each to a file below the folder of its method. Two scripts have
one file exactly if they belong to one method and their names are the same but for the kind of dividers
and for segments that stand for staying; then the one that comes last is the one that stays.

Results:
* `properSegments_eq_iff`, `scriptPlace?_eq_iff`: what tells the files of scripts apart.
* `writeScript_ok`, `writeScripts_ok`: what the disk holds after one script, and after all, were written.
* `exists_of_generate`: what a run without an error has done.
* `scripts_kept_iff`: when every script is kept, and when the files that are listed are different ones.
-/

namespace SsisCompiler

open Compile (Compiled Output Program Script)
open Files (Disk FileError Location Store isIdle join resolve segments)

/-! ## Paths as rows of names -/

/-- The segments of a path but for those that stand for staying. -/
def Files.properSegments (path : String) : List String :=
  (segments path).filter (!isIdle ·)

open Files (properSegments)

/-- A path followed from another one has the segments of both. -/
theorem Files.properSegments_join (base : String) {path : String}
    (h : Files.isAbsolute path = false) :
    properSegments (join base path) = properSegments base ++ properSegments path := by
  have hempty : properSegments "" = [] := rfl
  unfold properSegments at *
  rcases Files.join_cases base h with ⟨rfl, hjoin⟩ | ⟨front, rfl, hjoin⟩ | ⟨-, hjoin⟩
  · rw [hjoin, hempty, List.nil_append]
  · have hslash : segments (String.ofList (front ++ ['/'])) =
        segments (String.ofList front) ++ segments "" := Files.segments_slash front []
    rw [hjoin, Files.segments_slash, hslash, List.filter_append, List.filter_append, hempty,
      List.append_nil, String.ofList_toList]
  · rw [hjoin, Files.segments_slash, List.filter_append, String.ofList_toList, String.ofList_toList]

/-! ## The file of a script -/

/-- The path that a script is written to, if it is written. -/
def scriptFile? (folder : String) (script : Script) : Option String :=
  (scriptPath? script.method script.fileName).map (join folder)

/-- The names on the way from the folder of a method to the file of a script. -/
def scriptNames (script : Script) : List String :=
  properSegments (slashed script.fileName)

/-- Whether a script is written to a file. -/
def isWritten (script : Script) : Bool :=
  (scriptPath? script.method script.fileName).isSome

/-- Whether another script is written to the file of a script. -/
def sharesFile (script other : Script) : Bool :=
  isWritten other && (script.method == other.method && scriptNames script == scriptNames other)

section

variable {script other : Script} {folder path : String}

theorem sharesFile_eq_true_iff :
    sharesFile script other = true ↔ isWritten other = true ∧ script.method = other.method ∧
      scriptNames script = scriptNames other := by
  simp [sharesFile]

/-- Scripts that share a file share it with the same scripts. -/
theorem sharesFile_congr (h : sharesFile script other = true) :
    sharesFile script = sharesFile other := by
  obtain ⟨-, hmethod, hnames⟩ := sharesFile_eq_true_iff.1 h
  funext third
  rw [sharesFile, sharesFile, hmethod, hnames]

theorem exists_scriptFile?_iff (folder : String) (script : Script) :
    (∃ path, scriptFile? folder script = some path) ↔ isWritten script = true := by
  rw [← Option.isSome_iff_exists, scriptFile?, Option.isSome_map, isWritten]

theorem resolve_scriptFile (hmethod : CSharp.isIdentifier script.method = true)
    (h : scriptFile? folder script = some path) (working : Location) :
    resolve working path =
      resolve working folder ++ ["scripts", script.method] ++ scriptNames script := by
  obtain ⟨relative, hrelative, rfl⟩ := Option.map_eq_some_iff.1 h
  obtain ⟨habsolute, -, -, hwalk⟩ := leads_of_scriptPath? hmethod hrelative
  rw [Files.resolve_join working folder habsolute, hwalk]
  rfl

theorem properSegments_scriptFile (hmethod : CSharp.isIdentifier script.method = true)
    (h : scriptFile? folder script = some path) :
    properSegments path =
      properSegments folder ++ ["scripts", script.method] ++ scriptNames script := by
  obtain ⟨relative, hrelative, rfl⟩ := Option.map_eq_some_iff.1 h
  have habsolute := (leads_of_scriptPath? hmethod hrelative).1
  rw [Files.properSegments_join folder habsolute, List.append_assoc]
  rw [scriptPath?_eq] at hrelative
  split at hrelative
  · cases hrelative
  rename_i hsafe
  simp only [Bool.or_eq_true, not_or, Bool.not_eq_true] at hsafe
  obtain rfl := Option.some.inj hrelative
  obtain ⟨hsegments, hmethodAbsolute, hidle, -⟩ := segments_of_isIdentifier hmethod
  have hfolder : properSegments scriptsFolder = ["scripts"] := rfl
  have hname : properSegments script.method = [script.method] := by
    rw [properSegments, hsegments, List.filter_cons_of_pos (by simp [hidle]), List.filter_nil]
  rw [Files.properSegments_join _ hsafe.1.2, Files.properSegments_join _ hmethodAbsolute, hfolder,
    hname]
  rfl

/-- Paths of scripts are the same row of names exactly if the scripts share a file. -/
theorem properSegments_eq_iff (hmethod : CSharp.isIdentifier script.method = true)
    (hotherMethod : CSharp.isIdentifier other.method = true) {otherPath : String}
    (h : scriptFile? folder script = some path) (hother : scriptFile? folder other = some otherPath) :
    properSegments path = properSegments otherPath ↔ sharesFile script other = true := by
  rw [properSegments_scriptFile hmethod h, properSegments_scriptFile hotherMethod hother,
    sharesFile_eq_true_iff, (exists_scriptFile?_iff folder other).1 ⟨_, hother⟩]
  simp

/-- The place of a script's file. -/
def scriptPlace? (working : Location) (folder : String) (script : Script) : Option Location :=
  (scriptFile? folder script).map (resolve working)

/-- A script has the place of another one exactly if it shares its file. -/
theorem scriptPlace?_eq_iff (hmethod : CSharp.isIdentifier script.method = true)
    (hotherMethod : CSharp.isIdentifier other.method = true)
    (h : scriptFile? folder script = some path) (working : Location) :
    scriptPlace? working folder other = some (resolve working path) ↔
      sharesFile script other = true := by
  rw [scriptPlace?, sharesFile_eq_true_iff, ← exists_scriptFile?_iff folder other]
  cases hother : scriptFile? folder other with
  | none => simp
  | some otherPath =>
    rw [Option.map_some, Option.some_inj, resolve_scriptFile hmethod h,
      resolve_scriptFile hotherMethod hother]
    simp [eq_comm]

end

/-! ## Writing scripts -/

section

variable {folder : String} {d d' : Disk} {paths : List String}

/-- One script that is written without an error: its folder is there or made, then the file is written,
and then the other scripts are. -/
theorem exists_of_writeScripts_cons {script : Script} {rest : List Script}
    (h : (writeScripts Store.ofDisk folder (script :: rest)).run d = (.ok paths, d')) :
    (scriptFile? folder script = none ∧
      (writeScripts Store.ofDisk folder rest).run d = (.ok paths, d')) ∨
    ∃ path written others, scriptFile? folder script = some path ∧
      ((Store.ofDisk.ensureFolders (Files.parent path)).run d).2.writeText path script.text =
        .ok written ∧
      (writeScripts Store.ofDisk folder rest).run written = (.ok others, d') ∧
      paths = path :: others := by
  unfold writeScripts at h
  split at h
  · rename_i hpath
    exact .inl ⟨by rw [scriptFile?, hpath, Option.map_none], h⟩
  rename_i relative hpath
  rw [Files.run_bind_eq] at h
  split at h
  · cases h
  rw [Files.run_bind_eq] at h
  cases hwrite : ((Store.ofDisk.ensureFolders (Files.parent (join folder relative))).run d).2.writeText
      (join folder relative) script.text with
  | error e =>
    rw [Store.run_writeText_of_error hwrite] at h
    cases h
  | ok written =>
    rw [Store.run_writeText_of_ok hwrite] at h
    dsimp only at h
    rw [Files.run_bind_eq] at h
    split at h
    · cases h
    · rename_i others hothers
      obtain ⟨hpaths, hdisk⟩ := Prod.mk.inj h
      refine .inr ⟨join folder relative, written, others, ?_, hwrite, ?_, (Except.ok.inj hpaths).symm⟩
      · rw [scriptFile?, hpath, Option.map_some]
      · rw [← hothers]
        exact Prod.ext rfl hdisk

/-- What one script changes: the file at its place. -/
theorem writeScript_ok {path text : String} {written : Disk}
    (h : ((Store.ofDisk.ensureFolders (Files.parent path)).run d).2.writeText path text =
      .ok written) :
    d.Keeps written ∧ written.Reaches path ∧
      ∀ location, written.root.fileAt? location =
        if location = resolve d.working path then some (some text) else d.root.fileAt? location := by
  have hmade := Store.keepsFolders_ensureFolders (Files.parent path) d
  have hfiles := Store.actsOn_ofDisk.ensureFolders (Files.parent path) d
  generalize ((Store.ofDisk.ensureFolders (Files.parent path)).run d).2 = made at h hmade hfiles
  have hkeeps := hmade.trans (Disk.keeps_writeText h)
  obtain ⟨hreaches, hfile⟩ := (Disk.readText_eq_ok_iff _ _ _).1 (Disk.readText_writeText h)
  refine ⟨hkeeps, hreaches, fun location => ?_⟩
  split
  · rename_i hplace
    rw [hplace, ← hkeeps.working, hfile]
  · rename_i hplace
    have hchanges := Store.actsOn_ofDisk.writeText path text made
    rw [Store.run_writeText_of_ok h] at hchanges
    rw [hchanges.outside location, hfiles.outside location id]
    rintro ⟨rfl, -⟩
    exact hplace (by rw [hmade.working])

/-- What the disk holds after scripts were written without an error: the paths are those of the scripts
that have one, each path can be followed, and at each place the last script that belongs there
decides. -/
theorem writeScripts_ok {scripts : List Script}
    (h : (writeScripts Store.ofDisk folder scripts).run d = (.ok paths, d')) :
    paths = scripts.filterMap (scriptFile? folder) ∧
    d.Keeps d' ∧
    (∀ path ∈ paths, d'.Reaches path) ∧
    ∀ location, d'.root.fileAt? location =
      (scripts.filter fun script => scriptPlace? d.working folder script == some location).getLast?.elim
        (d.root.fileAt? location) fun script => some (some script.text) := by
  induction scripts generalizing d paths with
  | nil =>
    cases h
    exact ⟨rfl, .refl _, by simp, fun _ => rfl⟩
  | cons script rest ih =>
    rcases exists_of_writeScripts_cons h with
      ⟨hpath, hrest⟩ | ⟨path, written, others, hpath, hwrite, hrest, rfl⟩
    · obtain ⟨hpaths, hkeeps, hreaches, hfiles⟩ := ih hrest
      refine ⟨?_, hkeeps, hreaches, fun location => ?_⟩
      · rw [List.filterMap_cons_none hpath, hpaths]
      · rw [hfiles location, List.filter_cons_of_neg (by simp [scriptPlace?, hpath])]
    · obtain ⟨hkept, hreached, hwritten⟩ := writeScript_ok hwrite
      obtain ⟨hpaths, hkeeps, hreaches, hfiles⟩ := ih hrest
      have hplace : scriptPlace? d.working folder script = some (resolve d.working path) := by
        rw [scriptPlace?, hpath, Option.map_some]
      refine ⟨?_, hkept.trans hkeeps, ?_, fun location => ?_⟩
      · rw [List.filterMap_cons_some hpath, hpaths]
      · exact List.forall_mem_cons.2 ⟨hreached.of_keeps hkeeps, hreaches⟩
      · rw [hfiles location, hkept.working, hwritten location]
        split
        · -- the place of this script: it decides unless a later one has the place too
          rename_i hlocation
          rw [List.filter_cons_of_pos (by simp [hplace, hlocation]), List.getLast?_cons]
          cases (rest.filter fun script =>
            scriptPlace? d.working folder script == some location).getLast? <;> rfl
        · rename_i hlocation
          rw [List.filter_cons_of_neg]
          simpa [hplace] using Ne.symm hlocation

/-- The file of a script holds the text of the last script that shares it. -/
theorem exists_readText_of_writeScripts {scripts : List Script}
    (hscripts : ∀ script ∈ scripts, CSharp.isIdentifier script.method = true)
    (h : (writeScripts Store.ofDisk folder scripts).run d = (.ok paths, d')) :
    ∀ script ∈ scripts, ∀ path, scriptFile? folder script = some path →
      ∃ last, (scripts.filter (sharesFile script)).getLast? = some last ∧
        d'.readText path = .ok last.text := by
  intro script hscript path hpath
  obtain ⟨hpaths, hkeeps, hreaches, hfiles⟩ := writeScripts_ok h
  have hmem : path ∈ paths := by
    rw [hpaths]
    exact List.mem_filterMap.2 ⟨script, hscript, hpath⟩
  have hsame : (scripts.filter fun other =>
      scriptPlace? d.working folder other == some (resolve d.working path)) =
        scripts.filter (sharesFile script) := by
    refine List.filter_congr fun other hother => ?_
    rw [Bool.eq_iff_iff, beq_iff_eq]
    exact scriptPlace?_eq_iff (hscripts _ hscript) (hscripts _ hother) hpath d.working
  have hself : script ∈ scripts.filter (sharesFile script) :=
    List.mem_filter.2 ⟨hscript, sharesFile_eq_true_iff.2
      ⟨(exists_scriptFile?_iff folder script).1 ⟨path, hpath⟩, rfl, rfl⟩⟩
  cases hlast : (scripts.filter (sharesFile script)).getLast? with
  | none =>
    rw [List.getLast?_eq_none_iff.1 hlast] at hself
    cases hself
  | some last =>
    refine ⟨last, rfl, (Disk.readText_eq_ok_iff _ _ _).2 ⟨hreaches path hmem, ?_⟩⟩
    rw [hkeeps.working, hfiles, hsame, hlast]
    rfl

end

/-! ## The scripts of a program -/

/-- The methods of a program have different names, which are identifiers, and each script is kept under
the name of its own method. -/
structure Compile.Program.FilesScripts (p : Program) : Prop where
  nodup_names : (p.methods.map (·.method.name)).Nodup
  method_eq : ∀ c ∈ p.methods, ∀ script ∈ c.scripts, script.method = c.method.name
  isIdentifier : ∀ script ∈ p.scripts, CSharp.isIdentifier script.method = true

theorem filesScripts_of_compile {settings : Compile.Settings} {project text : String} {output : Output}
    (h : Compile.compile settings project text = .ok output) : output.program.FilesScripts := by
  obtain ⟨reading, -, ht, hprogram, -⟩ := Compile.exists_of_compile h
  obtain ⟨entry, names, hrun⟩ := Program.exists_run hprogram
  exact ⟨hrun.nodup_names ht, fun c hc => hrun.method_of_mem_scripts ht hc,
    isIdentifier_of_mem_scripts h⟩

namespace Compile.Program.FilesScripts

variable {p : Program}

/-- Scripts that share a file belong to one method. -/
theorem exists_method (h : p.FilesScripts) {script other : Script} (hscript : script ∈ p.scripts)
    (hother : other ∈ p.scripts) (hshares : sharesFile script other = true) :
    ∃ c ∈ p.methods, script ∈ c.scripts ∧ other ∈ c.scripts := by
  obtain ⟨c, hc, hscript⟩ := List.mem_flatMap.1 hscript
  obtain ⟨c', hc', hother⟩ := List.mem_flatMap.1 hother
  have hname : c.method.name = c'.method.name := by
    rw [← h.method_eq c hc script hscript, ← h.method_eq c' hc' other hother]
    exact (sharesFile_eq_true_iff.1 hshares).2.1
  obtain rfl := List.inj_on_of_nodup_map h.nodup_names hc hc' hname
  exact ⟨c, hc, hscript, hother⟩

/-- Where a file holds the text of the last script that shares it, every script has its own text exactly
if those of one method that share a file have one text. -/
theorem texts_iff (h : p.FilesScripts) {folder : String} {contents : String → Except FileError String}
    (hlast : ∀ script ∈ p.scripts, ∀ path, scriptFile? folder script = some path →
      ∃ last, (p.scripts.filter (sharesFile script)).getLast? = some last ∧
        contents path = .ok last.text) :
    (∀ script ∈ p.scripts, ∀ path, scriptFile? folder script = some path →
        contents path = .ok script.text) ↔
      ∀ c ∈ p.methods, ∀ script ∈ c.scripts, ∀ other ∈ c.scripts,
        isWritten script = true → sharesFile script other = true → script.text = other.text := by
  constructor
  · intro hkept c hc script hscript other hother hwritten hshares
    obtain ⟨path, hpath⟩ := (exists_scriptFile?_iff folder script).2 hwritten
    obtain ⟨otherPath, hotherPath⟩ := (exists_scriptFile?_iff folder other).2
      (sharesFile_eq_true_iff.1 hshares).1
    have hscript := List.mem_flatMap.2 ⟨c, hc, hscript⟩
    have hother := List.mem_flatMap.2 ⟨c, hc, hother⟩
    obtain ⟨last, hlastScript, htext⟩ := hlast script hscript path hpath
    obtain ⟨last', hlastOther, htext'⟩ := hlast other hother otherPath hotherPath
    rw [sharesFile_congr hshares, hlastOther] at hlastScript
    obtain rfl := Option.some.inj hlastScript
    rw [hkept script hscript path hpath] at htext
    rw [hkept other hother otherPath hotherPath] at htext'
    exact (Except.ok.inj htext).trans (Except.ok.inj htext').symm
  · intro hsame script hscript path hpath
    obtain ⟨last, hlastScript, htext⟩ := hlast script hscript path hpath
    obtain ⟨hmem, hshares⟩ := List.mem_filter.1 (List.mem_of_getLast? hlastScript)
    obtain ⟨c, hc, hscript, hmem⟩ := h.exists_method hscript hmem hshares
    rw [htext, hsame c hc script hscript last hmem
      ((exists_scriptFile?_iff folder script).1 ⟨path, hpath⟩) hshares]

/-- The files of a program's scripts are different ones exactly if those of each method are. -/
theorem pairwise_files_iff (h : p.FilesScripts) (folder : String) :
    (p.scripts.filterMap (scriptFile? folder)).Pairwise (properSegments · ≠ properSegments ·) ↔
      ∀ c ∈ p.methods, (c.scripts.filter isWritten).Pairwise (scriptNames · ≠ scriptNames ·) := by
  have hmem : ∀ c ∈ p.methods, ∀ script ∈ c.scripts, script ∈ p.scripts :=
    fun c hc script hscript => List.mem_flatMap.2 ⟨c, hc, hscript⟩
  have hfile : ∀ c ∈ p.methods, ∀ script ∈ c.scripts, ∀ c' ∈ p.methods, ∀ other ∈ c'.scripts,
      ∀ path, scriptFile? folder script = some path →
      ∀ otherPath, scriptFile? folder other = some otherPath →
        (properSegments path = properSegments otherPath ↔ sharesFile script other = true) :=
    fun c hc script hscript c' hc' other hother path hpath otherPath hotherPath =>
      properSegments_eq_iff (h.isIdentifier _ (hmem c hc script hscript))
        (h.isIdentifier _ (hmem c' hc' other hother)) hpath hotherPath
  rw [List.pairwise_filterMap, Program.scripts, List.pairwise_flatMap]
  constructor
  · rintro ⟨hinner, -⟩ c hc
    refine List.pairwise_filter.2 ((hinner c hc).imp_of_mem ?_)
    intro script other hscript hother hne hwritten hotherWritten hnames
    obtain ⟨path, hpath⟩ := (exists_scriptFile?_iff folder script).2 hwritten
    obtain ⟨otherPath, hotherPath⟩ := (exists_scriptFile?_iff folder other).2 hotherWritten
    refine hne path hpath otherPath hotherPath
      ((hfile c hc script hscript c hc other hother path hpath otherPath hotherPath).2 ?_)
    refine sharesFile_eq_true_iff.2 ⟨hotherWritten, ?_, hnames⟩
    rw [h.method_eq c hc script hscript, h.method_eq c hc other hother]
  · intro hall
    refine ⟨fun c hc => ?_, (List.pairwise_map.1 h.nodup_names).imp_of_mem ?_⟩
    · refine (List.pairwise_filter.1 (hall c hc)).imp_of_mem ?_
      intro script other hscript hother hne path hpath otherPath hotherPath hsegments
      obtain ⟨hotherWritten, -, hnames⟩ := sharesFile_eq_true_iff.1
        ((hfile c hc script hscript c hc other hother path hpath otherPath hotherPath).1 hsegments)
      exact hne ((exists_scriptFile?_iff folder script).1 ⟨path, hpath⟩) hotherWritten hnames
    · intro c c' hc hc' hne script hscript other hother path hpath otherPath hotherPath hsegments
      obtain ⟨-, hmethod, -⟩ := sharesFile_eq_true_iff.1
        ((hfile c hc script hscript c' hc' other hother path hpath otherPath hotherPath).1 hsegments)
      rw [h.method_eq c hc script hscript, h.method_eq c' hc' other hother] at hmethod
      exact hne hmethod

end Compile.Program.FilesScripts

/-! ## Whole runs -/

/-- A run without an error ends with writing the scripts of what the package is compiled to. -/
theorem exists_of_generate {r : Request} {d d' : Disk} {g : Generated}
    (h : (generate Store.ofDisk r).run d = (.ok g, d')) :
    ∃ text before, d.readText r.package = .ok text ∧
      Compile.compile r.settings r.projectName text = .ok g.output ∧
      (writeScripts Store.ofDisk r.output g.output.program.scripts).run before =
        (.ok g.scripts, d') := by
  cases hread : d.readText r.package with
  | error e =>
    rw [run_generate_of_unread Store.ofDisk r hread] at h
    cases h
  | ok text =>
    cases hcompile : Compile.compile r.settings r.projectName text with
    | error e =>
      rw [run_generate_of_uncompiled Store.ofDisk r hread hcompile] at h
      cases h
    | ok output =>
      rw [run_generate_of_compiled Store.ofDisk r hread hcompile, writeOutput, Files.run_bind_eq] at h
      split at h
      · cases h
      rw [Files.run_bind_eq] at h
      split at h
      · cases h
      rw [Files.run_bind_eq] at h
      split at h
      · cases h
      · rename_i paths hpaths
        obtain ⟨hg, hdisk⟩ := Prod.mk.inj h
        obtain rfl := Except.ok.inj hg
        exact ⟨text, _, rfl, hcompile, Prod.ext hpaths hdisk⟩

/-- No script is lost exactly if no two scripts of one method share a file. After a run without an error
the paths that are listed are those of the scripts that are written, in their order. Read under its
path, a script has the text of the last script that shares its file. So all scripts have their own text
exactly if scripts of one method that share a file have one text, and the files that are listed are
different ones exactly if the scripts of each method lead to different names. -/
theorem scripts_kept_iff {r : Request} {d d' : Disk} {g : Generated}
    (h : (generate Store.ofDisk r).run d = (.ok g, d')) :
    (∃ text, d.readText r.package = .ok text ∧
      Compile.compile r.settings r.projectName text = .ok g.output) ∧
    g.scripts = g.output.program.scripts.filterMap (scriptFile? r.output) ∧
    (∀ script ∈ g.output.program.scripts, ∀ path, scriptFile? r.output script = some path →
      ∃ last, (g.output.program.scripts.filter (sharesFile script)).getLast? = some last ∧
        d'.readText path = .ok last.text) ∧
    ((∀ script ∈ g.output.program.scripts, ∀ path, scriptFile? r.output script = some path →
        d'.readText path = .ok script.text) ↔
      ∀ c ∈ g.output.program.methods, ∀ script ∈ c.scripts, ∀ other ∈ c.scripts,
        isWritten script = true → sharesFile script other = true → script.text = other.text) ∧
    (g.scripts.Pairwise (properSegments · ≠ properSegments ·) ↔
      ∀ c ∈ g.output.program.methods,
        (c.scripts.filter isWritten).Pairwise (scriptNames · ≠ scriptNames ·)) := by
  obtain ⟨text, before, hread, hcompile, hwrite⟩ := exists_of_generate h
  have hfiled := filesScripts_of_compile hcompile
  have hpaths := (writeScripts_ok hwrite).1
  have hlast := exists_readText_of_writeScripts hfiled.isIdentifier hwrite
  refine ⟨⟨text, hread, hcompile⟩, hpaths, hlast, hfiled.texts_iff hlast, ?_⟩
  rw [hpaths]
  exact hfiled.pairwise_files_iff r.output

/-- A disk with a package in the working folder; its one task has two scripts of given names. -/
def twoScripts (first second : String) : Disk :=
  ⟨.folder "w" (.file "p" (some ("<DTS:Executable xmlns:DTS=\"d\">" ++
    "<DTS:Executable DTS:ObjectName=\"A\" DTS:CreationName=\"ScriptTask\"><ScriptProject>" ++
      "<ProjectItem Name=\"" ++ first ++ "\">x</ProjectItem>" ++
      "<ProjectItem Name=\"" ++ second ++ "\">y</ProjectItem>" ++
    "</ScriptProject></DTS:Executable></DTS:Executable>")) .empty) .empty, ["w"]⟩

/-- The request for its program. -/
def twoScriptsRequest : Request :=
  { package := "p", output := "o" }

theorem scripts_kept_iff_different :
    ∃ g d', (generate Store.ofDisk twoScriptsRequest).run (twoScripts "b\\M.cs" "./b/N.cs") =
        (.ok g, d') ∧
      g.scripts.Pairwise (properSegments · ≠ properSegments ·) ∧
      d'.readText "o/scripts/A/b/M.cs" = .ok "x" ∧
      d'.readText "o/scripts/A/./b/N.cs" = .ok "y" := by
  have hrun : ((generate Store.ofDisk twoScriptsRequest).run
      (twoScripts "b\\M.cs" "./b/N.cs")).1.toOption.map (·.output.program.methods.map (·.scripts)) =
        some [[⟨"A", "b\\M.cs", "x"⟩, ⟨"A", "./b/N.cs", "y"⟩]] := by
    decide +kernel
  generalize hresult : (generate Store.ofDisk twoScriptsRequest).run
    (twoScripts "b\\M.cs" "./b/N.cs") = result at hrun
  obtain ⟨outcome, d'⟩ := result
  cases outcome with
  | error e => cases hrun
  | ok g =>
    have hmethods : g.output.program.methods.map (·.scripts) =
        [[⟨"A", "b\\M.cs", "x"⟩, ⟨"A", "./b/N.cs", "y"⟩]] := Option.some.inj hrun
    have hscripts : g.output.program.scripts = [⟨"A", "b\\M.cs", "x"⟩, ⟨"A", "./b/N.cs", "y"⟩] := by
      rw [Program.scripts, List.flatMap_def, hmethods]
      rfl
    have hown : ∀ c ∈ g.output.program.methods,
        c.scripts = [⟨"A", "b\\M.cs", "x"⟩, ⟨"A", "./b/N.cs", "y"⟩] := by
      intro c hc
      have hmem : c.scripts ∈ g.output.program.methods.map (·.scripts) := List.mem_map.2 ⟨c, hc, rfl⟩
      rw [hmethods] at hmem
      exact List.mem_singleton.1 hmem
    obtain ⟨-, -, -, hkept, hdifferent⟩ := scripts_kept_iff hresult
    refine ⟨g, d', rfl, hdifferent.2 fun c hc => ?_, ?_⟩
    · rw [hown c hc]
      decide +kernel
    · have hall := hkept.2 fun c hc => by
        rw [hown c hc]
        decide +kernel
      rw [hscripts] at hall
      exact ⟨hall ⟨"A", "b\\M.cs", "x"⟩ (by decide) _ rfl, hall ⟨"A", "./b/N.cs", "y"⟩ (by decide) _ rfl⟩

/-- One script replaces the other where a name is written in two ways: both files are listed, and there
is only one. -/
theorem generate_sharedFile :
    ∃ g d', (generate Store.ofDisk twoScriptsRequest).run (twoScripts "b\\M.cs" "b/./M.cs") =
        (.ok g, d') ∧
      g.output.program.scripts = [⟨"A", "b\\M.cs", "x"⟩, ⟨"A", "b/./M.cs", "y"⟩] ∧
      g.scripts = ["o/scripts/A/b/M.cs", "o/scripts/A/b/./M.cs"] ∧
      properSegments "o/scripts/A/b/M.cs" = properSegments "o/scripts/A/b/./M.cs" ∧
      d'.readText "o/scripts/A/b/M.cs" = .ok "y" := by
  have hrun : (((generate Store.ofDisk twoScriptsRequest).run
      (twoScripts "b\\M.cs" "b/./M.cs")).1.toOption.map fun g => (g.output.program.scripts, g.scripts),
    ((generate Store.ofDisk twoScriptsRequest).run
      (twoScripts "b\\M.cs" "b/./M.cs")).2.readText "o/scripts/A/b/M.cs") =
    (some ([⟨"A", "b\\M.cs", "x"⟩, ⟨"A", "b/./M.cs", "y"⟩],
      ["o/scripts/A/b/M.cs", "o/scripts/A/b/./M.cs"]), .ok "y") := by
    decide +kernel
  generalize (generate Store.ofDisk twoScriptsRequest).run (twoScripts "b\\M.cs" "b/./M.cs") =
    result at hrun
  obtain ⟨outcome, d'⟩ := result
  obtain ⟨hpaths, hread⟩ := Prod.mk.inj hrun
  cases outcome with
  | error e => cases hpaths
  | ok g =>
    obtain ⟨hscripts, hpaths⟩ := Prod.mk.inj (Option.some.inj hpaths)
    exact ⟨g, d', rfl, hscripts, hpaths, by decide +kernel, hread⟩

end SsisCompiler
