/-
This file models the loading of persona files: the files named one by one, then
those of a directory in the order of their names, each read, parsed and
validated, and last the check that no two personas share a name. Without files
the built-in profiles are loaded.

A directory lists its entries in any order, and the names are sorted, so the
order does not matter. What is loaded is fit for a fleet: there is a persona,
each of them is accepted, and their names tell them apart.
-/

import Mathlib
import AccountCooker.Validation
import AccountCooker.Checkpoint

namespace AccountCooker

open Collections

/-! ### Errors with their context -/

/-- `anyhow::Error`: the messages of an error, the one of the outermost context first. -/
abbrev ErrorChain := List String

/-- `result.with_context(message)`. -/
def withContext {Result : Type} (message : String) :
    Except ErrorChain Result → Except ErrorChain Result :=
  Except.mapError (message :: ·)

/-- The error of a file as one of a chain. -/
def ofIo {Result : Type} : Except IoError Result → Except ErrorChain Result :=
  Except.mapError fun error => [error.message]

/-- The error of a parser or of a check as one of a chain. -/
def ofText {Result : Type} : Except String Result → Except ErrorChain Result :=
  Except.mapError fun error => [error]

@[simp]
theorem withContext_eq_ok {Result : Type} {message : String} {result : Result}
    {tried : Except ErrorChain Result} :
    withContext message tried = .ok result ↔ tried = .ok result := by
  cases tried <;> simp [withContext, Except.mapError]

@[simp]
theorem ofIo_eq_ok {Result : Type} {result : Result} {tried : Except IoError Result} :
    ofIo tried = .ok result ↔ tried = .ok result := by
  cases tried <;> simp [ofIo, Except.mapError]

@[simp]
theorem ofText_eq_ok {Result : Type} {result : Result} {tried : Except String Result} :
    ofText tried = .ok result ↔ tried = .ok result := by
  cases tried <;> simp [ofText, Except.mapError]

/-- A computation in two steps returns what the second returns for a result of the first. -/
theorem except_bind_eq_ok {Failure First Second : Type} {first : Except Failure First}
    {next : First → Except Failure Second} {result : Second} :
    first >>= next = .ok result ↔ ∃ value, first = .ok value ∧ next value = .ok result := by
  cases first with
  | error failure =>
    exact ⟨fun impossible => absurd impossible (by simp [bind, Except.bind]), nofun⟩
  | ok value => exact ⟨fun rest => ⟨value, rfl, rest⟩, by rintro ⟨_, ⟨⟩, rest⟩; exact rest⟩

/-- A list is computed item by item. -/
theorem mapM_eq_ok {Failure Item Result : Type} {compute : Item → Except Failure Result}
    {items : List Item} {results : List Result} :
    items.mapM compute = .ok results ↔
      List.Forall₂ (fun item result => compute item = .ok result) items results := by
  induction items generalizing results with
  | nil =>
    rw [List.mapM_nil, List.forall₂_nil_left_iff]
    exact ⟨fun same => (Except.ok.inj same).symm, fun same => congrArg Except.ok same.symm⟩
  | cons item rest inductionHypothesis =>
    rw [List.mapM_cons, except_bind_eq_ok, List.forall₂_cons_left_iff]
    constructor
    · rintro ⟨result, first, others⟩
      obtain ⟨results, computed, same⟩ := except_bind_eq_ok.mp others
      exact ⟨result, results, first, inductionHypothesis.mp computed, (Except.ok.inj same).symm⟩
    · rintro ⟨result, results, first, computed, rfl⟩
      exact ⟨result, first, except_bind_eq_ok.mpr ⟨results, inductionHypothesis.mpr computed, rfl⟩⟩

/-! ### Files -/

/-- What is read of the file system: the entries of a directory in whatever order they are listed,
and the text of a file. -/
structure FileSystem where
  readDir : String → Except IoError (List (Except IoError String))
  readToString : String → Except IoError String

/-- `Path::extension` of a file name: what follows its last dot, if something comes before that. -/
def extension (name : String) : Option String :=
  let before := name.toList.rdropWhile (· ≠ '.')
  if name = ".." ∨ before.length ≤ 1 then none
  else some (String.ofList (name.toList.rtakeWhile (· ≠ '.')))

/-- `Path::join` of a directory and the name of one of its entries. -/
def join (dir name : String) : String :=
  if dir = "" ∨ dir.toList.getLast? = some '/' then dir ++ name else dir ++ "/" ++ name

/-- The persona files asked for on the command line. -/
structure PersonaFiles where
  files : List String
  personasDir : Option String

/-! ### Loading -/

section Loading

variable (fs : FileSystem) (fromTomlStr : String → Except String Persona)

/-- The `*.toml` files of a directory, sorted; paths in one directory compare by their names. -/
def filesOfDir (dir : String) : Except ErrorChain (List String) := do
  let entries ← withContext ("reading " ++ dir) (ofIo (fs.readDir dir))
  let names ← entries.mapM fun entry => withContext ("reading entry in " ++ dir) (ofIo entry)
  let fromDir := (names.filter fun name => extension name = some "toml").insertionSort (· ≤ ·)
  if fromDir.isEmpty then .error [dir ++ " contains no *.toml persona files"]
  else .ok (fromDir.map (join dir))

/-- The files to load, those named one by one first. -/
def pathsOf (spec : PersonaFiles) : Except ErrorChain (List String) := do
  let fromDir ← match spec.personasDir with
    | none => .ok []
    | some dir => filesOfDir fs dir
  .ok (spec.files ++ fromDir)

def loadPersona (path : String) : Except ErrorChain Persona := do
  let raw ← withContext ("reading persona " ++ path) (ofIo (fs.readToString path))
  let persona ← withContext ("parsing persona " ++ path) (ofText (fromTomlStr raw))
  let _ ← withContext ("validating persona " ++ path) (ofText persona.validate)
  .ok persona

/-- Check a persona and enter its name among those before it. -/
def checkPersona (names : BTreeSet String) (persona : Persona) :
    Except ErrorChain (BTreeSet String) := do
  let _ ← withContext ("validating persona '" ++ persona.name ++ "'") (ofText persona.validate)
  if (names.get? persona.name).isSome then
    .error ["duplicate persona name '" ++ persona.name ++ "'"]
  else .ok (names.insert persona.name ())

/-- The personas of some files; without files, the built-in profiles. -/
def personasOf (paths : List String) : Except ErrorChain (List Persona) :=
  if paths.isEmpty then .ok Persona.presets else paths.mapM (loadPersona fs fromTomlStr)

def loadPersonas (spec : PersonaFiles) : Except ErrorChain (List Persona) := do
  let paths ← pathsOf fs spec
  let personas ← personasOf fs fromTomlStr paths
  let _ ← personas.foldlM checkPersona BTreeMap.empty
  .ok personas

/-! ### What is loaded -/

variable {fs fromTomlStr}

/-- The entries of a directory can all be read. -/
theorem entries_eq_ok {message : String} {entries : List (Except IoError String)}
    {names : List String} :
    entries.mapM (fun entry => withContext message (ofIo entry)) = .ok names ↔
      entries = names.map .ok := by
  rw [mapM_eq_ok]
  induction entries generalizing names with
  | nil =>
    rw [List.forall₂_nil_left_iff, List.nil_eq, List.map_eq_nil_iff]
  | cons entry rest inductionHypothesis =>
    rw [List.forall₂_cons_left_iff]
    constructor
    · rintro ⟨name, names, read, others, rfl⟩
      rw [withContext_eq_ok, ofIo_eq_ok] at read
      rw [List.map_cons, read, inductionHypothesis.mp others]
    · intro listed
      obtain ⟨name, names, rfl, read, others⟩ := List.map_eq_cons_iff.mp listed.symm
      refine ⟨name, names, ?_, inductionHypothesis.mpr others.symm, rfl⟩
      rw [withContext_eq_ok, ofIo_eq_ok, read]

/-- The `*.toml` files of a directory in the order of their names. -/
def TomlFiles (fs : FileSystem) (dir : String) (names : List String) : Prop :=
  ∃ listed : List String, fs.readDir dir = .ok (listed.map .ok) ∧
    names.Perm (listed.filter fun name => extension name = some "toml") ∧
    names.Pairwise (· ≤ ·) ∧ names ≠ []

theorem filesOfDir_eq_ok {dir : String} {paths : List String} :
    filesOfDir fs dir = .ok paths ↔
      ∃ names, TomlFiles fs dir names ∧ paths = names.map (join dir) := by
  unfold filesOfDir
  simp only [except_bind_eq_ok, withContext_eq_ok, ofIo_eq_ok, entries_eq_ok]
  constructor
  · rintro ⟨_, read, listed, rfl, rest⟩
    split at rest
    · exact nomatch rest
    · rename_i nonempty
      refine ⟨_, ⟨listed, read, List.perm_insertionSort _ _, List.pairwise_insertionSort _ _, ?_⟩,
        (Except.ok.inj rest).symm⟩
      rwa [List.isEmpty_iff] at nonempty
  · rintro ⟨names, ⟨listed, read, same, ordered, nonempty⟩, rfl⟩
    have sorted : (listed.filter fun name => extension name = some "toml").insertionSort (· ≤ ·) =
        names :=
      ((List.perm_insertionSort _ _).trans same.symm).eq_of_pairwise
        (fun _ _ _ _ below above => le_antisymm below above) (List.pairwise_insertionSort _ _)
        ordered
    refine ⟨_, read, listed, rfl, ?_⟩
    rw [sorted, if_neg (by rwa [List.isEmpty_iff])]

theorem loadPersona_eq_ok {path : String} {persona : Persona} :
    loadPersona fs fromTomlStr path = .ok persona ↔ ∃ raw, fs.readToString path = .ok raw ∧
      fromTomlStr raw = .ok persona ∧ persona.validate = .ok () := by
  unfold loadPersona
  simp only [except_bind_eq_ok, withContext_eq_ok, ofIo_eq_ok, ofText_eq_ok]
  constructor
  · rintro ⟨raw, read, other, parsed, _, validated, same⟩
    obtain rfl := Except.ok.inj same
    exact ⟨raw, read, parsed, validated⟩
  · rintro ⟨raw, read, parsed, validated⟩
    exact ⟨raw, read, persona, parsed, (), validated, rfl⟩

/-- The last check passes just when every persona is accepted and their names are distinct, also
from those entered before. -/
theorem checkPersonas_passes (personas : List Persona) (names : BTreeSet String) :
    (∃ entered, personas.foldlM checkPersona names = .ok entered) ↔
      (∀ persona ∈ personas, persona.validate = .ok ()) ∧ (personas.map (·.name)).Nodup ∧
        ∀ persona ∈ personas, persona.name ∉ names.keys := by
  induction personas generalizing names with
  | nil =>
    refine ⟨fun _ => ⟨fun _ member => ?_, List.nodup_nil, fun _ member => ?_⟩, fun _ => ⟨_, rfl⟩⟩
    · exact absurd member List.not_mem_nil
    · exact absurd member List.not_mem_nil
  | cons persona rest inductionHypothesis =>
    have one (entered : BTreeSet String) : checkPersona names persona = .ok entered ↔
        persona.validate = .ok () ∧ persona.name ∉ names.keys ∧
          entered = names.insert persona.name () := by
      unfold checkPersona
      simp only [except_bind_eq_ok, withContext_eq_ok, ofText_eq_ok]
      rw [BTreeMap.mem_keys_iff]
      constructor
      · rintro ⟨_, validated, rest⟩
        split at rest
        · cases rest
        · rename_i fresh
          exact ⟨validated, fresh, (Except.ok.inj rest).symm⟩
      · rintro ⟨validated, fresh, rfl⟩
        exact ⟨(), validated, if_neg fresh⟩
    simp only [List.foldlM_cons, except_bind_eq_ok, one]
    constructor
    · rintro ⟨entered, _, ⟨validated, fresh, rfl⟩, passed⟩
      obtain ⟨others, distinct, apart⟩ := (inductionHypothesis _).mp ⟨entered, passed⟩
      simp only [BTreeMap.mem_keys_insert, not_or] at apart
      refine ⟨List.forall_mem_cons.mpr ⟨validated, others⟩, ?_,
        List.forall_mem_cons.mpr ⟨fresh, fun persona member => (apart persona member).2⟩⟩
      rw [List.map_cons, List.nodup_cons, List.mem_map]
      refine ⟨?_, distinct⟩
      rintro ⟨other, member, same⟩
      exact (apart other member).1 same
    · rintro ⟨accepted, distinct, apart⟩
      obtain ⟨validated, others⟩ := List.forall_mem_cons.mp accepted
      obtain ⟨fresh, later⟩ := List.forall_mem_cons.mp apart
      rw [List.map_cons, List.nodup_cons] at distinct
      obtain ⟨entered, passed⟩ := (inductionHypothesis (names.insert persona.name ())).mpr
        ⟨others, distinct.2, fun other member => by
          rw [BTreeMap.mem_keys_insert, not_or]
          refine ⟨fun same => distinct.1 ?_, later other member⟩
          rw [← same]
          exact List.mem_map_of_mem member⟩
      exact ⟨entered, _, ⟨validated, fresh, rfl⟩, passed⟩

/-- The files asked for: those named one by one, and then those of the directory. -/
def Requested (fs : FileSystem) (spec : PersonaFiles) (paths : List String) : Prop :=
  spec.personasDir = none ∧ paths = spec.files ∨
    ∃ dir names, spec.personasDir = some dir ∧ TomlFiles fs dir names ∧
      paths = spec.files ++ names.map (join dir)

theorem pathsOf_eq_ok {spec : PersonaFiles} {paths : List String} :
    pathsOf fs spec = .ok paths ↔ Requested fs spec paths := by
  unfold pathsOf Requested
  cases spec.personasDir with
  | none =>
    simp only [except_bind_eq_ok, Except.ok.injEq, true_and, reduceCtorEq, false_and, exists_const,
      or_false, exists_eq_left', List.append_nil]
    exact eq_comm
  | some dir =>
    simp only [except_bind_eq_ok, Except.ok.injEq, filesOfDir_eq_ok, reduceCtorEq, false_and,
      false_or, Option.some.injEq]
    constructor
    · rintro ⟨_, ⟨names, files, rfl⟩, rfl⟩
      exact ⟨dir, names, rfl, files, rfl⟩
    · rintro ⟨_, names, rfl, files, rfl⟩
      exact ⟨_, ⟨names, files, rfl⟩, rfl⟩

/-- The built-in profiles are accepted. -/
theorem presets_accepted : ∀ persona ∈ Persona.presets, persona.validate = .ok () := by
  refine List.forall_mem_cons.mpr ⟨by decide +kernel, List.forall_mem_cons.mpr ⟨?_, ?_⟩⟩
  · decide +kernel
  · exact List.forall_mem_singleton.mpr (by decide +kernel)

variable (fs fromTomlStr) in
/-- A persona is what a file holds, and is accepted. -/
def LoadsFrom (path : String) (persona : Persona) : Prop :=
  ∃ raw, fs.readToString path = .ok raw ∧ fromTomlStr raw = .ok persona ∧ persona.validate = .ok ()

variable (fs fromTomlStr) in
/-- Some files are loaded, each of them; where there are none, the built-in profiles. -/
def LoadsAll (paths : List String) (personas : List Persona) : Prop :=
  paths = [] ∧ personas = Persona.presets ∨
    paths ≠ [] ∧ List.Forall₂ (LoadsFrom fs fromTomlStr) paths personas

theorem personasOf_eq_ok {paths : List String} {personas : List Persona} :
    personasOf fs fromTomlStr paths = .ok personas ↔ LoadsAll fs fromTomlStr paths personas := by
  unfold personasOf LoadsAll
  rcases eq_or_ne paths [] with rfl | nonempty
  · rw [List.isEmpty_nil, if_pos rfl]
    constructor
    · intro same
      exact Or.inl ⟨rfl, (Except.ok.inj same).symm⟩
    · rintro (⟨_, rfl⟩ | ⟨absent, _⟩)
      · rfl
      · exact absurd rfl absent
  · rw [if_neg (by rwa [List.isEmpty_iff]), mapM_eq_ok]
    simp only [loadPersona_eq_ok]
    exact ⟨fun loaded => Or.inr ⟨nonempty, loaded⟩,
      fun loaded => (loaded.resolve_left fun none => nonempty none.1).2⟩

theorem LoadsAll.accepted {paths : List String} {personas : List Persona}
    (loaded : LoadsAll fs fromTomlStr paths personas) :
    ∀ persona ∈ personas, persona.validate = .ok () := by
  rcases loaded with ⟨_, rfl⟩ | ⟨nonempty, each⟩
  · exact presets_accepted
  · clear nonempty
    induction each with
    | nil => exact fun _ member => absurd member List.not_mem_nil
    | cons first _ inductionHypothesis =>
      obtain ⟨_, _, _, validated⟩ := first
      exact List.forall_mem_cons.mpr ⟨validated, inductionHypothesis⟩

/-- Everything that is loaded is accepted. -/
theorem loadPersonas_accepted {spec : PersonaFiles} {personas : List Persona}
    (loaded : loadPersonas fs fromTomlStr spec = .ok personas) :
    ∀ persona ∈ personas, persona.validate = .ok () := by
  unfold loadPersonas at loaded
  simp only [except_bind_eq_ok, personasOf_eq_ok] at loaded
  obtain ⟨paths, _, _, each, _, _, same⟩ := loaded
  exact Except.ok.inj same ▸ each.accepted

/-- Exactly this is loaded: the built-in profiles where no file is asked for, else the personas of
all files asked for, in the order of the command line and then of the file names, when every file
is read, parsed and accepted and no two personas share a name. -/
theorem loadPersonas_eq_ok {spec : PersonaFiles} {personas : List Persona} :
    loadPersonas fs fromTomlStr spec = .ok personas ↔ ∃ paths, Requested fs spec paths ∧
      LoadsAll fs fromTomlStr paths personas ∧ (personas.map (·.name)).Nodup := by
  unfold loadPersonas
  simp only [except_bind_eq_ok, pathsOf_eq_ok, personasOf_eq_ok]
  refine exists_congr fun paths => and_congr_right fun _ => ?_
  constructor
  · rintro ⟨_, each, entered, passed, same⟩
    obtain rfl := Except.ok.inj same
    exact ⟨each, ((checkPersonas_passes _ _).mp ⟨entered, passed⟩).2.1⟩
  · rintro ⟨each, distinct⟩
    obtain ⟨entered, passed⟩ := (checkPersonas_passes personas BTreeMap.empty).mpr
      ⟨each.accepted, distinct, fun _ _ => List.not_mem_nil⟩
    exact ⟨personas, each, entered, passed, rfl⟩

end Loading

end AccountCooker
