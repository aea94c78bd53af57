import SsisCompiler.Generate
import SsisCompiler.Proofs.Compile.Coverage
import SsisCompiler.Proofs.Compile.Scripts
import SsisCompiler.Proofs.Files.Changes

/-!
# Where a program is written

Writing a program changes the file of the program and files in the folders of its scripts, whatever
fails on the way; without a program nothing is changed. A script cannot leave its folder, because its
name does not go up, and because the folder is named after a method, whose name is an identifier.

Results:
* `scriptPath?_eq_none_iff`: which names of scripts are refused.
* `leads_of_scriptPath?`: where the path of a script leads.
* `confined_writeScripts`, `confined_writeOutput`: what writing changes.
* `generate_confined`: all of it for a whole run.
-/

namespace SsisCompiler

open Compile (CompileError Output Program Script Settings)
open Files (Confined Disk FileError Location Store isIdle resolve segments walkAll writtenPlace)

/-! ## Names of scripts -/

/-- Whether a character divides folders in the name of a script. -/
def isDivider (c : Char) : Bool :=
  c == '/' || c == '\\'

/-- The name of a script goes up: two dots stand alone between dividers. -/
def GoesUp (fileName : String) : Prop :=
  ∃ before after, fileName.toList = before ++ ['.', '.'] ++ after ∧
    (∀ c ∈ before.getLast?, isDivider c = true) ∧ ∀ c ∈ after.head?, isDivider c = true

/-- The name of a script with one kind of divider. -/
def slashed (fileName : String) : String :=
  String.ofList (fileName.toList.map fun c => if c == '\\' then '/' else c)

theorem isEmpty_slashed (fileName : String) : (slashed fileName).isEmpty = fileName.isEmpty := by
  rw [Bool.eq_iff_iff, String.isEmpty_iff, String.isEmpty_iff, ← String.toList_eq_nil_iff,
    ← String.toList_eq_nil_iff, slashed, String.toList_ofList, List.map_eq_nil_iff]

theorem beq_slash_eq (c : Char) :
    ((if c == '\\' then '/' else c) == '/') = isDivider c := by
  unfold isDivider
  by_cases h : c = '\\'
  · subst h
    rfl
  · simp [h]

theorem isAbsolute_slashed (fileName : String) :
    Files.isAbsolute (slashed fileName) = fileName.toList.head?.any isDivider := by
  rw [Files.isAbsolute, slashed, String.toList_ofList]
  cases fileName.toList with
  | nil => rfl
  | cons c cs => simpa using beq_slash_eq c

theorem mem_segments_slashed (fileName : String) :
    ".." ∈ segments (slashed fileName) ↔ GoesUp fileName := by
  have hdots : ∀ piece : List Char,
      piece.map (fun c => if c == '\\' then '/' else c) = ['.', '.'] → piece = ['.', '.'] := by
    intro piece hpiece
    obtain ⟨c, rest, rfl, hc, hrest⟩ := List.map_eq_cons_iff.1 hpiece
    obtain ⟨d, rest, rfl, hd, hrest⟩ := List.map_eq_cons_iff.1 hrest
    obtain rfl := List.map_eq_nil_iff.1 hrest
    grind
  have hsegments : ".." ∈ segments (slashed fileName) ↔
      ['.', '.'] ∈ Text.split isDivider fileName.toList := by
    rw [segments, slashed, String.toList_ofList, Text.split_map]
    simp only [beq_slash_eq, List.map_map, List.mem_map]
    constructor
    · rintro ⟨piece, hpiece, heq⟩
      rw [← hdots piece (String.ofList_injective heq)]
      exact hpiece
    · intro hmem
      exact ⟨_, hmem, rfl⟩
  rw [hsegments, Text.mem_split_iff]
  exact and_iff_right (by simp [isDivider])

theorem scriptPath?_eq (method fileName : String) :
    scriptPath? method fileName =
      if (slashed fileName).isEmpty || Files.isAbsolute (slashed fileName)
          || (segments (slashed fileName)).contains ".." then none
      else some (Files.join (Files.join scriptsFolder method) (slashed fileName)) := rfl

/-- The names that are refused are the empty one, those that start at the top and those that go up. -/
theorem scriptPath?_eq_none_iff (method fileName : String) :
    scriptPath? method fileName = none ↔
      fileName = "" ∨ fileName.toList.head?.any isDivider = true ∨ GoesUp fileName := by
  rw [scriptPath?_eq, isEmpty_slashed, isAbsolute_slashed, ← mem_segments_slashed]
  simp only [ite_eq_left_iff, reduceCtorEq, imp_false, Decidable.not_not, Bool.or_eq_true,
    String.isEmpty_iff, List.contains_iff_mem, or_assoc]

/-! ## Paths of scripts -/

theorem segments_of_isIdentifier {name : String} (h : CSharp.isIdentifier name = true) :
    segments name = [name] ∧ Files.isAbsolute name = false ∧ isIdle name = false ∧ name ≠ ".." := by
  obtain ⟨c, cs, hchars, -⟩ := (CSharp.isIdentifier_eq_true_iff name).1 h
  have hall := CSharp.isIdentChar_of_isIdentifier h
  have hslash : '/' ∉ name.toList := fun hmem => absurd (hall _ hmem) (by decide)
  have hdot : '.' ∉ name.toList := fun hmem => absurd (hall _ hmem) (by decide)
  refine ⟨Files.segments_of_not_mem hslash, ?_, ?_, ?_⟩
  · have hne : c ≠ '/' := by
      rintro rfl
      exact hslash (by simp [hchars])
    simp [Files.isAbsolute, hchars, hne]
  · have hempty : name ≠ "" := by
      rintro rfl
      cases hchars
    have hone : name ≠ "." := by
      rintro rfl
      exact hdot (by decide)
    simp [isIdle, hempty, hone]
  · rintro rfl
    exact hdot (by decide)

/-- The path of a script leads below the folder of its method: the segments of its name do not go up,
and not all of them are empty. -/
theorem leads_of_scriptPath? {method fileName relative : String}
    (hmethod : CSharp.isIdentifier method = true) (h : scriptPath? method fileName = some relative) :
    Files.isAbsolute relative = false ∧
      segments (slashed fileName) <:+ segments relative ∧
      (∃ segment ∈ segments (slashed fileName), segment.isEmpty = false) ∧
      ∀ location, walkAll location (segments relative) =
        location ++ ["scripts", method] ++ (segments (slashed fileName)).filter (!isIdle ·) := by
  rw [scriptPath?_eq] at h
  split at h
  · cases h
  rename_i hsafe
  simp only [Bool.or_eq_true, not_or, Bool.not_eq_true, List.contains_eq_mem,
    decide_eq_false_iff_not] at hsafe
  obtain ⟨⟨hempty, habsolute⟩, hup⟩ := hsafe
  obtain rfl := Option.some.inj h
  obtain ⟨hsegments, hmethodAbsolute, hidle, hdots⟩ := segments_of_isIdentifier hmethod
  refine ⟨?_, Files.segments_suffix_join _ habsolute,
    Files.exists_segment_ne_empty hempty habsolute, fun location => ?_⟩
  · rw [Files.isAbsolute_join _ habsolute, Files.isAbsolute_join _ hmethodAbsolute]
    rfl
  · -- first to the folder of the scripts, then to that of the method, then along the name
    have hfolder : walkAll location (segments scriptsFolder) = location ++ ["scripts"] := rfl
    rw [Files.walkAll_join location _ habsolute, Files.walkAll_join location _ hmethodAbsolute,
      hfolder, hsegments, Files.walkAll_cons, Files.walk_name hidle hdots,
      Files.walkAll_forward _ hup]
    simp [walkAll]

/-- The place that writing a script may change. -/
def scriptPlace (folder method : String) (working location : Location) : Prop :=
  ∃ below, below ≠ [] ∧ location = resolve working folder ++ ["scripts", method] ++ below

theorem scriptPlace_of_writtenPlace {method fileName relative : String}
    (hmethod : CSharp.isIdentifier method = true) (h : scriptPath? method fileName = some relative)
    {folder : String} {working location : Location}
    (hwritten : writtenPlace (Files.join folder relative) working location) :
    scriptPlace folder method working location := by
  obtain ⟨habsolute, hsuffix, hlist, hwalk⟩ := leads_of_scriptPath? hmethod h
  obtain ⟨rfl, hname⟩ := hwritten
  obtain ⟨name, hmem, hidle⟩ :=
    hname.exists_mem (hsuffix.trans (Files.segments_suffix_join folder habsolute)) hlist
  refine ⟨(segments (slashed fileName)).filter (!isIdle ·), ?_, ?_⟩
  · exact List.ne_nil_of_mem (List.mem_filter.2 ⟨hmem, by simp [hidle]⟩)
  · rw [Files.resolve_join working folder habsolute, hwalk]

/-! ## Writing -/

section

variable {σ : Type} {store : Store (StateM σ)} {disk : σ → Disk}

/-- The places that writing scripts may change. -/
def scriptPlaces (folder : String) (scripts : List Script) (working location : Location) : Prop :=
  ∃ script ∈ scripts, scriptPlace folder script.method working location

theorem scriptPlaces_of_rest {folder : String} {scripts : List Script} {working location : Location}
    (script : Script) (h : scriptPlaces folder scripts working location) :
    scriptPlaces folder (script :: scripts) working location := by
  obtain ⟨other, hother, hplace⟩ := h
  exact ⟨other, List.mem_cons_of_mem script hother, hplace⟩

/-- By induction on the scripts: whatever fails, what was written before lies in its own folder. -/
theorem confined_writeScripts (h : store.ActsOn disk) (folder : String) {scripts : List Script}
    (hscripts : ∀ script ∈ scripts, CSharp.isIdentifier script.method = true) :
    Confined disk (scriptPlaces folder scripts) (writeScripts store folder scripts) := by
  induction scripts with
  | nil => exact .pure _
  | cons script rest ih =>
    obtain ⟨hmethod, hrest⟩ := List.forall_mem_cons.1 hscripts
    have hothers : Confined disk (scriptPlaces folder (script :: rest))
        (writeScripts store folder rest) :=
      (ih hrest).mono fun _ _ => scriptPlaces_of_rest script
    unfold writeScripts
    split
    · exact hothers
    · rename_i relative hpath
      refine (h.ensureFolders _).of_nowhere.bind fun outcome => ?_
      cases outcome with
      | some e => exact .pure _
      | none =>
        have hwrite : Confined disk (scriptPlaces folder (script :: rest))
            (store.writeText (Files.join folder relative) script.text) :=
          (h.writeText _ _).mono fun _ _ hwritten =>
            ⟨script, List.mem_cons_self, scriptPlace_of_writtenPlace hmethod hpath hwritten⟩
        refine hwrite.bind fun outcome => ?_
        cases outcome with
        | some failure => exact .pure _
        | none =>
          refine hothers.bind fun outcome => ?_
          cases outcome <;> exact .pure _

/-- The places that writing an output may change. -/
def outputPlaces (folder : String) (output : Output) (working location : Location) : Prop :=
  location = resolve working folder ++ ["program.cs"] ∨
    scriptPlaces folder output.program.scripts working location

theorem outputPlaces_of_writtenPlace {folder : String} {output : Output}
    {working location : Location}
    (h : writtenPlace (Files.join folder programFile) working location) :
    outputPlaces folder output working location := by
  rw [outputPlaces, h.1, Files.resolve_join working folder (by rfl)]
  exact Or.inl rfl

theorem confined_writeOutput (h : store.ActsOn disk) (folder : String) {output : Output}
    (hscripts : ∀ script ∈ output.program.scripts, CSharp.isIdentifier script.method = true) :
    Confined disk (outputPlaces folder output) (writeOutput store folder output) := by
  unfold writeOutput
  refine (h.ensureFolders folder).of_nowhere.bind fun outcome => ?_
  cases outcome with
  | some e => exact .pure _
  | none =>
    have hprogram : Confined disk (outputPlaces folder output)
        (store.writeText (Files.join folder programFile) output.source) :=
      (h.writeText _ _).mono fun _ _ => outputPlaces_of_writtenPlace
    refine hprogram.bind fun outcome => ?_
    cases outcome with
    | some failure => exact .pure _
    | none =>
      have hwrites : Confined disk (outputPlaces folder output)
          (writeScripts store folder output.program.scripts) :=
        (confined_writeScripts h folder hscripts).mono fun _ _ => Or.inr
      refine hwrites.bind fun outcome => ?_
      cases outcome <;> exact .pure _

end

/-! ## Whole runs -/

theorem isIdentifier_of_mem_scripts {settings : Settings} {project text : String} {output : Output}
    (h : Compile.compile settings project text = .ok output) :
    ∀ script ∈ output.program.scripts, CSharp.isIdentifier script.method = true := by
  obtain ⟨reading, -, ht, hprogram, -⟩ := Compile.exists_of_compile h
  obtain ⟨entry, names, hrun⟩ := Program.exists_run hprogram
  exact fun script hscript => (hrun.legal_of_mem_scripts ht script hscript).isIdentifier

section

variable {σ : Type} (store : Store (StateM σ)) (r : Request) {s : σ}

theorem run_generate_of_unread {e : FileError}
    (hread : ((store.readText r.package).run s).1 = .error e) :
    (generate store r).run s =
      (.error (.file .read r.package e), ((store.readText r.package).run s).2) := by
  rw [generate, Files.run_bind_eq, hread]
  rfl

theorem run_generate_of_uncompiled {text : String}
    (hread : ((store.readText r.package).run s).1 = .ok text) {e : CompileError}
    (hcompile : Compile.compile r.settings r.projectName text = .error e) :
    (generate store r).run s = (.error (.compile e), ((store.readText r.package).run s).2) := by
  rw [generate, Files.run_bind_eq, hread]
  simp only [hcompile]
  rfl

theorem run_generate_of_compiled {text : String}
    (hread : ((store.readText r.package).run s).1 = .ok text) {output : Output}
    (hcompile : Compile.compile r.settings r.projectName text = .ok output) :
    (generate store r).run s =
      (writeOutput store r.output output).run ((store.readText r.package).run s).2 := by
  rw [generate, Files.run_bind_eq, hread]
  simp only [hcompile]

end

/-- Files are written only where they should be, and nothing is when there is no program. On a store
that acts on a disk, which has no links, and any of whose actions may fail: if the package cannot be
read or compiled, then the disk stays as it is. Else, however the run ends, the only files that change
are `program.cs` in the output folder and files below the folders of captured scripts there. The names
of scripts that are left out are the empty one, those that start with a divider and those that go up. -/
theorem generate_confined {σ : Type} {store : Store (StateM σ)} {disk : σ → Disk}
    (h : store.ActsOn disk) (r : Request) (s : σ) :
    (∀ e, ((store.readText r.package).run s).1 = .error e →
      ((generate store r).run s).1 = .error (.file .read r.package e) ∧
        disk ((generate store r).run s).2 = disk s) ∧
    (∀ text e, ((store.readText r.package).run s).1 = .ok text →
      Compile.compile r.settings r.projectName text = .error e →
      ((generate store r).run s).1 = .error (.compile e) ∧
        disk ((generate store r).run s).2 = disk s) ∧
    (∀ text output, ((store.readText r.package).run s).1 = .ok text →
      Compile.compile r.settings r.projectName text = .ok output →
      ∀ location, (disk ((generate store r).run s).2).root.fileAt? location ≠
          (disk s).root.fileAt? location →
        location = resolve (disk s).working r.output ++ ["program.cs"] ∨
          ∃ script ∈ output.program.scripts, ∃ below, below ≠ [] ∧
            location = resolve (disk s).working r.output ++ ["scripts", script.method] ++ below) ∧
    ∀ method fileName, scriptPath? method fileName = none ↔
      fileName = "" ∨ fileName.toList.head?.any isDivider = true ∨ GoesUp fileName := by
  refine ⟨fun e hread => ?_, fun text e hread hcompile => ?_,
    fun text output hread hcompile location hchanged => ?_, scriptPath?_eq_none_iff⟩
  · rw [run_generate_of_unread store r hread]
    exact ⟨rfl, h.readText_eq r.package s⟩
  · rw [run_generate_of_uncompiled store r hread hcompile]
    exact ⟨rfl, h.readText_eq r.package s⟩
  · rw [run_generate_of_compiled store r hread hcompile] at hchanged
    have hscripts := isIdentifier_of_mem_scripts hcompile
    have hchanges := confined_writeOutput h r.output hscripts ((store.readText r.package).run s).2
    rw [h.readText_eq] at hchanges
    by_contra hout
    exact hchanged (hchanges.outside location hout)

/-- A package with two scripts, one of which would go up. -/
def scriptPackage : String :=
  "<DTS:Executable xmlns:DTS=\"d\">" ++
    "<DTS:Executable DTS:ObjectName=\"A\" DTS:CreationName=\"ScriptTask\"><ScriptProject>" ++
      "<ProjectItem Name=\"b\\M.cs\">x</ProjectItem><ProjectItem Name=\"..\\M.cs\">y</ProjectItem>" ++
    "</ScriptProject></DTS:Executable></DTS:Executable>"

/-- A disk with that package in the working folder. -/
def scriptDisk : Disk :=
  ⟨.folder "w" (.file "p" (some scriptPackage) .empty) .empty, ["w"]⟩

/-- The request for its program. -/
def scriptRequest : Request :=
  { package := "p", output := "./o" }

theorem generate_confined_scriptDisk :
    ((generate Store.ofDisk scriptRequest).run scriptDisk).2.root.fileAt?
        ["w", "o", "scripts", "A", "b", "M.cs"] = some (some "x") ∧
      ∃ output, Compile.compile scriptRequest.settings scriptRequest.projectName scriptPackage =
          .ok output ∧
        ∃ script ∈ output.program.scripts, ∃ below, below ≠ [] ∧
          ["w", "o", "scripts", "A", "b", "M.cs"] =
            ["w", "o"] ++ ["scripts", script.method] ++ below := by
  have hread : ((Store.ofDisk.readText scriptRequest.package).run scriptDisk).1 =
      .ok scriptPackage := by
    decide +kernel
  have hbefore : scriptDisk.root.fileAt? ["w", "o", "scripts", "A", "b", "M.cs"] = none := by
    decide +kernel
  have hwritten : ((generate Store.ofDisk scriptRequest).run scriptDisk).2.root.fileAt?
      ["w", "o", "scripts", "A", "b", "M.cs"] = some (some "x") := by
    decide +kernel
  obtain ⟨-, hfailed, hconfined, -⟩ :=
    generate_confined Files.Store.actsOn_ofDisk scriptRequest scriptDisk
  refine ⟨hwritten, ?_⟩
  generalize hcompile : Compile.compile scriptRequest.settings scriptRequest.projectName
    scriptPackage = result
  cases result with
  | error e =>
    rw [(hfailed _ e hread hcompile).2, hbefore] at hwritten
    cases hwritten
  | ok output =>
    have houtput : resolve scriptDisk.working scriptRequest.output = ["w", "o"] := by
      decide +kernel
    have hplaces := hconfined _ output hread hcompile ["w", "o", "scripts", "A", "b", "M.cs"] (by
      rw [hwritten, hbefore]
      exact Option.some_ne_none _)
    rw [houtput] at hplaces
    rcases hplaces with hprogram | hscript
    · simp at hprogram
    · exact ⟨output, rfl, hscript⟩

end SsisCompiler
