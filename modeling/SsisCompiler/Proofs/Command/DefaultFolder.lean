import SsisCompiler.Command.Run
import SsisCompiler.Proofs.Compile.SourceText
import SsisCompiler.Proofs.Files.PathEnds
import SsisCompiler.Proofs.Generate.Confinement

/-!
# The folder that is written into by default

Without a folder among the arguments, the command writes into the folder that is named by the package
without its extension. A package without an extension is in the way of that folder. Otherwise the
program is written, unless its path is too long or a folder has its name.

Results:
* `writeOutput_cases`: what becomes of a program without scripts, by what lies at its folder.
* `run_eq_generate`: the command succeeds exactly if the program is generated.
* `resolve_withoutExtension_eq_iff`: which packages are in the way of their default folder.
* `hasFolder_program_iff`: where a folder can have the name of the program.
* `exitCode_defaultFolder_iff`: when the default folder works.
-/

namespace SsisCompiler

open Compile (Output Settings)
open Files (Disk FileError Location Place Store isIdle nameLimit pathLimit resolve segments)

/-! ## Writing a program without scripts -/

section

variable {d d' d'' : Disk} {folder : String} {output : Output}

theorem run_writeOutput_of_no_folder {e : FileError}
    (h : (Store.ofDisk.ensureFolders folder).run d = (some e, d')) :
    (writeOutput Store.ofDisk folder output).run d = (.error (.file .create folder e), d') := by
  rw [writeOutput, Files.run_bind_eq, h]
  rfl

theorem run_writeOutput_of_unwritten (h : (Store.ofDisk.ensureFolders folder).run d = (none, d'))
    {e : FileError}
    (hwrite : d'.writeText (Files.join folder programFile) output.source = .error e) :
    (writeOutput Store.ofDisk folder output).run d =
      (.error (.file .create (Files.join folder programFile) e), d') := by
  rw [writeOutput, Files.run_bind_eq, h]
  dsimp only
  rw [Files.run_bind_eq, Store.run_writeText_of_error hwrite]
  rfl

theorem run_writeOutput_of_written (h : (Store.ofDisk.ensureFolders folder).run d = (none, d'))
    (hwrite : d'.writeText (Files.join folder programFile) output.source = .ok d'')
    (hscripts : output.program.scripts = []) :
    (writeOutput Store.ofDisk folder output).run d =
      (.ok ⟨Files.join folder programFile, output, Sha256.checksum output.source, []⟩, d'') := by
  rw [writeOutput, Files.run_bind_eq, h]
  dsimp only
  rw [Files.run_bind_eq, Store.run_writeText_of_ok hwrite]
  dsimp only
  rw [hscripts]
  rfl

theorem segments_programFile : segments programFile = [programFile] :=
  Files.segments_of_not_mem (by decide)

theorem resolve_programFile (working : Location) (folder : String) :
    resolve working (Files.join folder programFile) = resolve working folder ++ [programFile] := by
  rw [Files.resolve_join working folder (by rfl), segments_programFile]
  rfl

/-- A program without scripts is written exactly if there is no file in the place of its folder, its
path is not too long and no folder has its name. If it is not written, then no file changes. -/
theorem writeOutput_cases {front : List String} {last : String} {place : Place}
    (h : d.Leads folder front last place) (hidle : isIdle last = false)
    (hlimit : last.utf8ByteSize ≤ nameLimit) (hscripts : output.program.scripts = []) :
    ((∃ g, ((writeOutput Store.ofDisk folder output).run d).1 = .ok g) ↔
      d.root.fileAt? (resolve d.working folder) = none ∧
        (Files.join folder programFile).utf8ByteSize ≤ pathLimit ∧
        ¬ d.root.HasFolder (resolve d.working folder ++ [programFile])) ∧
    (∀ g, ((writeOutput Store.ofDisk folder output).run d).1 = .ok g →
      ((writeOutput Store.ofDisk folder output).run d).2.root.fileAt?
        (resolve d.working folder ++ [programFile]) = some (some output.source)) ∧
    ∀ e, ((writeOutput Store.ofDisk folder output).run d).1 = .error e → ∀ location,
      ((writeOutput Store.ofDisk folder output).run d).2.root.fileAt? location =
        d.root.fileAt? location := by
  cases hfile : d.root.fileAt? (resolve d.working folder) with
  | some contents =>
    rw [run_writeOutput_of_no_folder (h.ensureFolders_of_file hidle hlimit hfile)]
    simp
  | none =>
    obtain ⟨d', place', q, hensure, hleads, hstep, hfolders⟩ :=
      h.ensureFolders_of_no_file hidle hlimit hfile
    have hchanges := Store.actsOn_ofDisk.ensureFolders folder d
    rw [hensure] at hchanges
    have hwrites := hleads.exists_writeText_iff (Files.ne_empty_of_isIdle hidle) hstep
      (by decide : isIdle programFile = false) (by decide) (by decide) (by decide) (by decide)
      output.source
    rw [hchanges.working, hfolders] at hwrites
    cases hwrite : d'.writeText (Files.join folder programFile) output.source with
    | error e =>
      rw [run_writeOutput_of_unwritten hensure hwrite]
      rw [hwrite] at hwrites
      refine ⟨iff_of_false (by simp) fun hfree => ?_, by simp,
        fun _ _ location => hchanges.outside location id⟩
      obtain ⟨_, hok⟩ := hwrites.2 hfree.2
      cases hok
    | ok d'' =>
      rw [run_writeOutput_of_written hensure hwrite hscripts]
      refine ⟨iff_of_true ⟨_, rfl⟩ ⟨rfl, hwrites.1 ⟨d'', hwrite⟩⟩, fun _ _ => ?_, by simp⟩
      have hread := ((d''.readText_eq_ok_iff _ _).1 (Disk.readText_writeText hwrite)).2
      rwa [resolve_programFile, (Disk.keeps_writeText hwrite).working, hchanges.working] at hread

end

/-! ## Running the command -/

namespace Command

/-- The request that the arguments make. -/
def Arguments.request (a : Arguments) (settings : Settings) : Request where
  package := a.package
  output := a.output.getD (Files.withoutExtension a.package)
  settings := settings
  project := a.project

theorem ofEnvironment_of_unset {environment : String → Option String}
    (h : ∀ name, "DESSIST_".toList <+: name.toList → environment name = none) :
    Settings.ofEnvironment environment = .ok {} := by
  have hvariable : ∀ e : Compile.SettingsError, environment e.variableName = none := by
    intro e
    cases e <;> exact h _ (by decide +kernel)
  simp [Settings.ofEnvironment, Compile.fromVariable, hvariable]
  rfl

section

variable {environment : String → Option String} {arguments : List String} {a : Arguments}

/-- The command leaves the disk that generating the program leaves, and it succeeds if that does. -/
theorem run_eq_generate (harguments : Invocation.ofArguments arguments = .run a)
    (hdump : a.dumpTree = false)
    (henvironment : ∀ name, "DESSIST_".toList <+: name.toList → environment name = none) (d : Disk) :
    ((run Store.ofDisk environment arguments).run d).2 =
      ((generate Store.ofDisk (a.request (overrule {} a))).run d).2 ∧
    (∀ g, ((generate Store.ofDisk (a.request (overrule {} a))).run d).1 = .ok g →
      ((run Store.ofDisk environment arguments).run d).1.exitCode = 0) ∧
    ∀ e, ((generate Store.ofDisk (a.request (overrule {} a))).run d).1 = .error e →
      ((run Store.ofDisk environment arguments).run d).1.exitCode = 1 := by
  have hrun : run Store.ofDisk environment arguments =
      compilePackage Store.ofDisk (overrule {} a) a := by
    simp [run, harguments, ofEnvironment_of_unset henvironment, hdump]
  have hbind : (compilePackage Store.ofDisk (overrule {} a) a).run d = _ :=
    Files.run_bind_eq (generate Store.ofDisk (a.request (overrule {} a))) _ d
  rw [hrun, hbind]
  obtain ⟨outcome, d'⟩ := (generate Store.ofDisk (a.request (overrule {} a))).run d
  cases outcome with
  | error e => exact ⟨rfl, fun _ hok => (by cases hok), fun _ _ => rfl⟩
  | ok g => exact ⟨rfl, fun _ _ => rfl, fun _ herror => (by cases herror)⟩

end

/-! ## The default folder -/

section

variable {d : Disk} {package text : String}

/-- The default folder of a package that is read: its last segment is what the name of the package is
without the extension, in the folder of the package. -/
theorem exists_leads_withoutExtension (h : d.readText package = .ok text) :
    ∃ front name place, d.Leads package front name place ∧
      d.Leads (Files.withoutExtension package) front (Files.leaf name) place ∧
      isIdle name = false ∧ name ≠ ".." ∧ (Files.leaf name).utf8ByteSize ≤ nameLimit := by
  obtain ⟨front, name, place, hleads, hidle, hup, hlimit, -⟩ := Disk.exists_leads_of_readText h
  exact ⟨front, name, place, hleads,
    hleads.sibling (Files.segments_withoutExtension hleads.segments_eq hidle hup)
      (Files.withoutExtension_isPrefix hleads.segments_eq hidle hup),
    hidle, hup, (Files.utf8ByteSize_le_of_isPrefix (Files.leaf_isPrefix name)).trans hlimit⟩

/-- The default folder of a package is the package itself exactly if the package has no extension. -/
theorem resolve_withoutExtension_eq_iff (h : d.readText package = .ok text) :
    resolve d.working (Files.withoutExtension package) = resolve d.working package ↔
      Files.extension? package = none := by
  obtain ⟨front, name, place, hpackage, hfolder, hidle, hup, -⟩ := exists_leads_withoutExtension h
  rw [hfolder.resolve_eq, hpackage.resolve_eq,
    Files.extension?_of_segments hpackage.segments_eq hidle hup, ← Files.leaf_eq_self_iff hup,
    Files.walk_name hidle hup]
  by_cases hleaf : Files.leaf name = ".."
  · refine iff_of_false (fun heq => ?_) fun hself => hup (hself.symm.trans hleaf)
    have hlength := congrArg List.length heq
    rw [hleaf, Files.walk_up] at hlength
    simp at hlength
  · rw [Files.walk_name (Files.isIdle_leaf hidle) hleaf]
    simp

/-- If all folders lie on the way to the package, then one has the name of the program in the default
folder only if that folder is around the folder of the package, and the latter has the name. -/
theorem hasFolder_program_iff (h : d.readText package = .ok text)
    (hfolders : ∀ location, d.root.HasFolder location → location <+: resolve d.working package) :
    d.root.HasFolder (resolve d.working (Files.withoutExtension package) ++ [programFile]) ↔
      (segments (Files.withoutExtension package)).getLast? = some ".." ∧
        (resolve d.working package).dropLast.getLast? = some programFile := by
  obtain ⟨front, name, place, hpackage, hfolder, hidle, hup, -⟩ := exists_leads_withoutExtension h
  have hresolve : resolve d.working package = place.location ++ [name] := by
    rw [hpackage.resolve_eq, Files.walk_name hidle hup]
  rw [hresolve] at hfolders
  rw [hfolder.resolve_eq, hfolder.segments_eq, List.getLast?_concat, Option.some_inj, hresolve,
    List.dropLast_concat]
  by_cases hleaf : Files.leaf name = ".."
  · rw [hleaf, Files.walk_up]
    refine ⟨fun hprogram => ⟨rfl, ?_⟩, fun hprogram => ?_⟩
    · have hway := hfolders _ hprogram
      rcases List.eq_nil_or_concat place.location with hnil | ⟨around, inner, hlocation⟩
      · rw [hnil] at hway
        obtain rfl : programFile = name := by simpa using hway
        exact absurd hleaf (by decide +kernel)
      · rw [List.concat_eq_append] at hlocation
        rw [hlocation, List.dropLast_concat, List.append_assoc, List.prefix_append_right_inj] at hway
        rw [hlocation, List.getLast?_concat]
        simpa [eq_comm] using hway
    · obtain ⟨around, hlocation⟩ := List.getLast?_eq_some_iff.1 hprogram.2
      have hentry := hpackage.below.1.entry?_location
      rw [hlocation] at hentry ⊢
      rw [List.dropLast_concat]
      exact ⟨_, hentry⟩
  · rw [Files.walk_name (Files.isIdle_leaf hidle) hleaf]
    refine iff_of_false (fun hprogram => ?_) fun hprogram => hleaf hprogram.1
    have hlength := (hfolders _ hprogram).length_le
    simp at hlength

end

/-- When the default folder works. Let the arguments name a package, no folder and no tree, let no
variable of the environment be set, and let the package be the only file, one that is compiled and has
no scripts. Then the command succeeds exactly if the package has an extension, the path of the program
is not too long and no folder has its name; the program is in the default folder then, and otherwise no
file changes. If there are no folders but those on the way to the package, then a folder has the name of
the program only where taking off the extension leaves two dots and the folder of the package is itself
called `program.cs`. -/
theorem exitCode_defaultFolder_iff {arguments : List String} {a : Arguments}
    {environment : String → Option String} {d : Disk} {text : String} {output : Output}
    (harguments : Invocation.ofArguments arguments = .run a) (houtput : a.output = none)
    (hdump : a.dumpTree = false)
    (henvironment : ∀ name, "DESSIST_".toList <+: name.toList → environment name = none)
    (hread : d.readText a.package = .ok text)
    (honly : ∀ location, d.root.fileAt? location ≠ none → location = resolve d.working a.package)
    (hcompile : Compile.compile (overrule {} a) (a.request (overrule {} a)).projectName text =
      .ok output)
    (hscripts : output.program.scripts = []) :
    let folder := Files.withoutExtension a.package
    let program := resolve d.working folder ++ ["program.cs"]
    let after := (run Store.ofDisk environment arguments).run d
    (after.1.exitCode = 0 ↔ Files.extension? a.package ≠ none ∧
      (Files.join folder "program.cs").utf8ByteSize ≤ pathLimit ∧ ¬ d.root.HasFolder program) ∧
    (after.1.exitCode = 0 → after.2.root.fileAt? program = some (some output.source)) ∧
    (after.1.exitCode ≠ 0 → after.1.exitCode = 1 ∧
      ∀ location, after.2.root.fileAt? location = d.root.fileAt? location) ∧
    ((∀ location, d.root.HasFolder location → location <+: resolve d.working a.package) →
      (d.root.HasFolder program ↔ (segments folder).getLast? = some ".." ∧
        (resolve d.working a.package).dropLast.getLast? = some "program.cs")) := by
  intro folder program after
  obtain ⟨front, name, place, -, hleads, hidle, -, hlimit⟩ := exists_leads_withoutExtension hread
  change d.Leads folder front (Files.leaf name) place at hleads
  obtain ⟨hdisk, hok, herror⟩ := run_eq_generate harguments hdump henvironment d
  have hgenerate : (generate Store.ofDisk (a.request (overrule {} a))).run d =
      (writeOutput Store.ofDisk folder output).run d := by
    rw [run_generate_of_compiled Store.ofDisk (a.request (overrule {} a)) (s := d) hread hcompile]
    simp only [Arguments.request, houtput, Option.getD_none]
    rfl
  obtain ⟨hwrites, hwritten, hunwritten⟩ :=
    writeOutput_cases hleads (Files.isIdle_leaf hidle) hlimit hscripts
  rw [hgenerate] at hdisk hok herror
  -- the package is the only file that can be in the way of the folder
  have hfile : d.root.fileAt? (resolve d.working folder) = none ↔
      Files.extension? a.package ≠ none := by
    rw [← not_iff_not, not_not, ← resolve_withoutExtension_eq_iff hread]
    refine ⟨honly _, fun heq => ?_⟩
    have hpackage := ((d.readText_eq_ok_iff _ _).1 hread).2
    rw [heq, hpackage]
    exact Option.some_ne_none _
  rw [hfile] at hwrites
  cases hresult : ((writeOutput Store.ofDisk folder output).run d).1 with
  | error e =>
    have hexit : after.1.exitCode = 1 := herror e hresult
    rw [hresult] at hwrites
    refine ⟨?_, ?_, fun _ => ⟨hexit, fun location => ?_⟩, hasFolder_program_iff hread⟩
    · rw [hexit]
      refine iff_of_false Nat.one_ne_zero fun hfree => ?_
      obtain ⟨g, hg⟩ := hwrites.2 hfree
      cases hg
    · rw [hexit]
      exact fun hzero => absurd hzero Nat.one_ne_zero
    · show ((run Store.ofDisk environment arguments).run d).2.root.fileAt? location = _
      rw [hdisk]
      exact hunwritten e hresult location
  | ok g =>
    have hexit : after.1.exitCode = 0 := hok g hresult
    refine ⟨iff_of_true hexit (hwrites.1 ⟨g, hresult⟩), fun _ => ?_, fun hne => absurd hexit hne,
      hasFolder_program_iff hread⟩
    show ((run Store.ofDisk environment arguments).run d).2.root.fileAt? program = _
    rw [hdisk]
    exact hwritten g hresult

/-- A package without scripts. -/
def plainPackage : String :=
  "<DTS:Executable xmlns:DTS=\"d\"><DTS:Executable DTS:ObjectName=\"A\"/></DTS:Executable>"

/-- A disk with that package alone in the working folder. -/
def plainDisk (name : String) : Disk :=
  ⟨.folder "w" (.file name (some plainPackage) .empty) .empty, ["w"]⟩

theorem fileAt?_plainDisk (name : String) {location : Location}
    (h : (plainDisk name).root.fileAt? location ≠ none) : location = ["w", name] := by
  rcases location with _ | ⟨first, rest⟩
  · exact absurd rfl h
  rw [plainDisk, Files.Folder.fileAt?_cons, Files.Folder.find?] at h
  split at h
  · rename_i hfirst
    rw [Option.bind_some, Files.Entry.fileAt?] at h
    rcases rest with _ | ⟨second, rest⟩
    · exact absurd rfl h
    rw [Files.Folder.fileAt?_cons, Files.Folder.find?] at h
    split at h
    · rename_i hsecond
      rcases rest with _ | ⟨third, rest⟩
      · rw [beq_iff_eq.1 hfirst, beq_iff_eq.1 hsecond]
      · exact absurd rfl h
    · exact absurd rfl h
  · exact absurd rfl h

theorem exists_compile_plainPackage (project : String) :
    ∃ output, Compile.compile {} project plainPackage = .ok output ∧ output.program.scripts = [] := by
  have hscripts : ((Package.Reading.ofText? {} plainPackage).bind fun reading =>
      (Compile.Program.ofTree? {} reading.tree).map (·.scripts)) = some [] := by
    decide +kernel
  obtain ⟨reading, hreading, hmap⟩ := Option.bind_eq_some_iff.1 hscripts
  obtain ⟨p, hp, hnil⟩ := Option.map_eq_some_iff.1 hmap
  obtain ⟨imports, opening, footer, hcompile⟩ := @Compile.exists_compile_eq {} _ _ _ hreading hp
  exact ⟨_, hcompile project, hnil⟩

theorem exitCode_defaultFolder_dotted :
    ∃ output, Compile.compile {} "a.b" plainPackage = .ok output ∧ output.program.scripts = [] ∧
      ((run Store.ofDisk (fun _ => none) ["--", "./a.b.dtsx"]).run
        (plainDisk "a.b.dtsx")).1.exitCode = 0 ∧
      ((run Store.ofDisk (fun _ => none) ["--", "./a.b.dtsx"]).run
        (plainDisk "a.b.dtsx")).2.root.fileAt? ["w", "a.b", "program.cs"] =
          some (some output.source) := by
  obtain ⟨output, hcompile, hscripts⟩ := exists_compile_plainPackage "a.b"
  have hread : (plainDisk "a.b.dtsx").readText "./a.b.dtsx" = .ok plainPackage := by decide +kernel
  have hpackage : resolve ["w"] "./a.b.dtsx" = ["w", "a.b.dtsx"] := by decide +kernel
  have hfolder : resolve ["w"] (Files.withoutExtension "./a.b.dtsx") = ["w", "a.b"] := by
    decide +kernel
  have hprogram :
      Files.Folder.entry? (plainDisk "a.b.dtsx").root ["w", "a.b", "program.cs"] = none := by
    decide +kernel
  obtain ⟨hexit, hwritten, -⟩ := @exitCode_defaultFolder_iff ["--", "./a.b.dtsx"]
    { package := "./a.b.dtsx" } (fun _ => none) (plainDisk "a.b.dtsx") _ output (by decide +kernel) rfl
    rfl (fun _ _ => rfl) hread (fun _ h => (fileAt?_plainDisk _ h).trans hpackage.symm) hcompile hscripts
  have hworking : (plainDisk "a.b.dtsx").working = ["w"] := rfl
  dsimp only at hexit hwritten
  rw [hworking, hfolder] at hexit hwritten
  have hzero := hexit.2 ⟨by decide +kernel, by decide +kernel, ?_⟩
  · exact ⟨output, hcompile, hscripts, hzero, hwritten hzero⟩
  · rintro ⟨inner, hinner⟩
    rw [List.cons_append, List.singleton_append, hprogram] at hinner
    cases hinner

/-- A package without an extension is in the way of its own folder. -/
theorem exitCode_run_noExtension :
    let after := (run Store.ofDisk (fun _ => none) ["noext"]).run (plainDisk "noext")
    (∃ output, Compile.compile {} "noext" plainPackage = .ok output ∧ output.program.scripts = []) ∧
      after.1.exitCode = 1 ∧ after.2.root.fileAt? ["w", "noext", "program.cs"] = none := by
  intro after
  exact ⟨exists_compile_plainPackage "noext", by decide +kernel⟩

end Command

end SsisCompiler
