import SsisCompiler.Compile.Connection
import SsisCompiler.Proofs.Text.Pieces

/-!
# Connection strings for a server

A connection string is cut at its semicolons. Reading a setting trims key and value apart; making a
connection string for a server trims each part first and leaves some parts out. `keptParts` are the
parts that are left, and all results are read off them.

Results:
* `connectionParts_serverConnection`: the parts of what is made are the kept parts, and nothing behind
  the last semicolon.
* `partValue?_trim`: a trimmed part gives the same setting.
* `connectionValue?_serverConnection`: every setting but those of the driver keeps its value.
* `serverConnection_settings`: the settings, and what making it once more or of two strings gives.
-/

namespace SsisCompiler.Compile

/-! ## Parts -/

/-- The parts of a connection string that are kept for a connection to a server. -/
def keptParts (connection : String) : List String :=
  ((connectionParts connection).map Text.trim).filter isKeptPart

theorem serverConnection_eq (connection : String) :
    serverConnection connection = String.join ((keptParts connection).map (· ++ ";")) := rfl

theorem connectionParts_append (s t : String) :
    connectionParts (s ++ ";" ++ t) = connectionParts s ++ connectionParts t := by
  have hchars : (s ++ ";" ++ t).toList = s.toList ++ ';' :: t.toList := by
    rw [String.toList_append, String.toList_append, List.append_assoc]
    rfl
  rw [connectionParts, hchars, Text.split_append_cons (by decide), List.map_append, connectionParts,
    connectionParts]

theorem connectionParts_of_not_mem {part : String} (h : ';' ∉ part.toList) :
    connectionParts part = [part] := by
  have hplain : ∀ c ∈ part.toList, (c == ';') = false := by
    intro c hc
    rw [beq_eq_false_iff_ne]
    rintro rfl
    exact h hc
  rw [connectionParts, Text.split_of_not hplain, List.map_singleton, String.ofList_toList]

/-- Parts that end with semicolons are found again, with nothing behind the last one. -/
theorem connectionParts_join {parts : List String} (h : ∀ part ∈ parts, ';' ∉ part.toList) :
    connectionParts (String.join (parts.map (· ++ ";"))) = parts ++ [""] := by
  induction parts with
  | nil => decide
  | cons part parts ih =>
    obtain ⟨hpart, hparts⟩ := List.forall_mem_cons.1 h
    rw [List.map_cons, String.join_cons, connectionParts_append, connectionParts_of_not_mem hpart,
      ih hparts, List.singleton_append, List.cons_append]

theorem semicolon_not_mem_keptParts {connection part : String} (h : part ∈ keptParts connection) :
    ';' ∉ part.toList := by
  obtain ⟨whole, hwhole, rfl⟩ := List.mem_map.1 (List.mem_of_mem_filter h)
  obtain ⟨piece, hpiece, rfl⟩ := List.mem_map.1 hwhole
  intro hmem
  have hinside := (Text.trim_isInfix _).subset hmem
  rw [String.toList_ofList] at hinside
  have hnot := Text.not_of_mem_split hpiece ';' hinside
  cases hnot

theorem connectionParts_serverConnection (connection : String) :
    connectionParts (serverConnection connection) = keptParts connection ++ [""] := by
  rw [serverConnection_eq, connectionParts_join fun _ => semicolon_not_mem_keptParts]

theorem keptParts_append (s t : String) :
    keptParts (s ++ ";" ++ t) = keptParts s ++ keptParts t := by
  simp only [keptParts, connectionParts_append, List.map_append, List.filter_append]

theorem trim_of_mem_keptParts {connection part : String} (h : part ∈ keptParts connection) :
    Text.trim part = part := by
  obtain ⟨whole, -, rfl⟩ := List.mem_map.1 (List.mem_of_mem_filter h)
  exact Text.trim_trim whole

/-- The kept parts are kept again: they are trimmed, and the empty part at the end is dropped. -/
theorem keptParts_serverConnection (connection : String) :
    keptParts (serverConnection connection) = keptParts connection := by
  have htrim : (keptParts connection).map Text.trim = keptParts connection := by
    rw [List.map_congr_left fun _ => trim_of_mem_keptParts, List.map_id']
  have hkept : (keptParts connection).filter isKeptPart = keptParts connection :=
    List.filter_eq_self.2 fun _ hpart => (List.mem_filter.1 hpart).2
  have hempty : ([""].map Text.trim).filter isKeptPart = [] := by decide
  rw [keptParts, connectionParts_serverConnection, List.map_append, List.filter_append, hempty,
    List.append_nil, htrim, hkept]

/-! ## Settings -/

/-- Whether a key is one that a connection to a server refuses. -/
def isDriverKey (key : String) : Bool :=
  driverKeys.any (Text.equalIgnoringCase · key)

theorem isDriverKey_congr {key key' : String} (h : Text.equalIgnoringCase key key' = true) :
    isDriverKey key = isDriverKey key' := by
  have hlower : Text.lower key = Text.lower key' := by simpa [Text.equalIgnoringCase] using h
  simp only [isDriverKey, Text.equalIgnoringCase, hlower]

theorem isKeptPart_eq (part : String) :
    isKeptPart part = (!part.isEmpty && !isDriverKey (partKey part)) := rfl

/-- A part gives a value to its own key only. -/
theorem equalIgnoringCase_of_partValue? {key part value : String}
    (h : partValue? key part = some value) : Text.equalIgnoringCase (partKey part) key = true := by
  cases hcut : Text.splitOnce "=" part with
  | none => simp only [partValue?, hcut, reduceCtorEq] at h
  | some cut =>
    simp only [partValue?, hcut, Option.ite_none_right_eq_some] at h
    simp only [partKey, hcut]
    exact h.1

theorem partValue?_empty (key : String) : partValue? key "" = none := rfl

/-- Trimming a part changes neither its key nor its value: what stands at the equals sign is trimmed
with the key and the value. -/
theorem partValue?_trim (key part : String) :
    partValue? key (Text.trim part) = partValue? key part := by
  have hcut := Text.breakOn_trimWhile (p := Text.isBlank) (c := '=') (by decide) part.toList
  have hsign : "=".toList = ['='] := rfl
  simp only [partValue?, Text.splitOnce, hsign, Text.trim, String.toList_ofList, hcut]
  cases Text.breakOn ['='] part.toList with
  | none => rfl
  | some cut =>
    simp only [Option.map_some, String.toList_ofList, Text.trimWhile_dropWhile,
      Text.trimWhile_dropEndWhile]

/-- A part that gives a value to a key is kept exactly if the key is none of the driver's. -/
theorem isKeptPart_trim_of_partValue? {key part value : String}
    (h : partValue? key part = some value) : isKeptPart (Text.trim part) = !isDriverKey key := by
  rw [← partValue?_trim] at h
  have hne : (Text.trim part).isEmpty = false := by
    rw [← Bool.not_eq_true, String.isEmpty_iff]
    intro hempty
    rw [hempty, partValue?_empty] at h
    cases h
  rw [isKeptPart_eq, hne, isDriverKey_congr (equalIgnoringCase_of_partValue? h)]
  rfl

/-- What the first of some parts gives to a key, of all parts and of the kept ones. -/
theorem findSome?_kept (key : String) (parts : List String) :
    ((parts.map Text.trim).filter isKeptPart).findSome? (partValue? key) =
      if isDriverKey key then none else parts.findSome? (partValue? key) := by
  induction parts with
  | nil => simp
  | cons part parts ih =>
    rw [List.map_cons, List.filter_cons, List.findSome?_cons]
    cases hvalue : partValue? key part with
    | none =>
      -- a part without a value for the key does not matter, whether it is kept or not
      dsimp only
      rw [← ih]
      split
      · rw [List.findSome?_cons, partValue?_trim, hvalue]
      · rfl
    | some value =>
      rw [isKeptPart_trim_of_partValue? hvalue]
      cases hdriver : isDriverKey key with
      | true =>
        rw [hdriver] at ih
        simpa using ih
      | false => simp [partValue?_trim, hvalue]

theorem connectionValue?_serverConnection (connection key : String) :
    connectionValue? (serverConnection connection) key =
      if isDriverKey key then none else connectionValue? connection key := by
  rw [connectionValue?, connectionParts_serverConnection, List.findSome?_append,
    List.findSome?_singleton, partValue?_empty, Option.or_none, keptParts, findSome?_kept,
    connectionValue?]

/-- A connection string for a server has every setting of the stored one, with the same value, but none
under a key of the driver. Making it once more changes nothing, and of two strings joined by a semicolon
it is what it is of each. -/
theorem serverConnection_settings (connection : String) :
    (∀ key, connectionValue? (serverConnection connection) key =
      if driverKeys.any (Text.equalIgnoringCase · key) then none
      else connectionValue? connection key) ∧
    serverConnection (serverConnection connection) = serverConnection connection ∧
    ∀ other, serverConnection (connection ++ ";" ++ other) =
      serverConnection connection ++ serverConnection other := by
  refine ⟨connectionValue?_serverConnection connection, ?_, fun other => ?_⟩
  · rw [serverConnection_eq, keptParts_serverConnection, ← serverConnection_eq]
  · rw [serverConnection_eq, keptParts_append, List.map_append, String.join_append,
      serverConnection_eq, serverConnection_eq]

/-- Blanks around keys and values, a key without a value and a repeated key. -/
example : serverConnection " PROVIDER = x; Server =s ;Auto Translate;;Server=t" =
    "Server =s;Server=t;" := by
  decide +kernel

end SsisCompiler.Compile
