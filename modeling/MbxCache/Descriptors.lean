import MbxCache.NormalizedPaths

namespace MbxCache

inductive Part
  | text (value : String)
  | name (value : String)
  | digest (value : Digest)

namespace Part

def strings : Part → List String
  | text value => [value]
  | name value => [value]
  | digest value => [value.algorithm, value.hash]

def digests : Part → List Digest
  | digest value => [value]
  | _ => []

def names : Part → List String
  | name value => [value]
  | _ => []

def sound : Part → Bool
  | text value => validString value
  | name value => nonEmpty value
  | digest value => value.validate

end Part

structure CoveredParts (parts : List Part) : Prop where
  strings : ∀ text ∈ parts.flatMap Part.strings, '\x00' ∉ text.toList
  digests : ∀ digest ∈ parts.flatMap Part.digests, digest.validate = true
  names : ∀ name ∈ parts.flatMap Part.names, name ≠ ""

def texts (values : List String) : List Part := values.map .text

def required (values : List String) : List Part := values.map .name

def pairs (values : StringMap String) : List Part :=
  values.flatMap fun (key, value) => [.text key, .text value]

def settings (values : StringMap (Option String)) : List Part :=
  values.flatMap fun (key, value) => .name key :: texts value.toList

def TaskRunSingle.parts : TaskRunSingle → List Part
  | ⟨task, args, env⟩ => .text task :: (texts args ++ pairs env)

def TaskRunEntry.parts : TaskRunEntry → List Part
  | .script text => [.text text]
  | .single entry => entry.parts
  | .group tasks => texts tasks

def TaskCommandInput.parts : TaskCommandInput → List Part
  | ⟨command, stdoutHash, stderrHash⟩ => texts [command, stdoutHash, stderrHash]

/-- A task's own environment may have an empty name. -/
def TaskAction.parts : TaskAction → List Part
  | ⟨_version, kind, task, _phase, run, args, shell, outputs, root, sourceHash, dependencyKeys,
      environment, commandInputs, vars, tools, os, arch⟩ =>
      texts [kind, task, root, sourceHash, os, arch] ++ run.flatMap TaskRunEntry.parts ++
        texts args ++ texts shell.toList ++ texts outputs ++ texts dependencyKeys ++
        (environment.flatMap fun (key, value) => .text key :: texts value.toList) ++
        commandInputs.flatMap TaskCommandInput.parts ++ pairs vars ++ texts tools

def TaskOutput.parts : TaskOutput → List Part
  | ⟨_stream, line⟩ => [.text line]

def TaskMetadata.parts : TaskMetadata → List Part
  | ⟨_version, kind, taskIdentity, roots, output, _restoredBytes, _executionDurationNs⟩ =>
      texts [kind, taskIdentity] ++ texts roots ++ output.flatMap TaskOutput.parts

def RustcCompiler.parts : RustcCompiler → List Part
  | ⟨toolchain, rustcVersion, host, driver⟩ =>
      required ([toolchain, rustcVersion, host] ++ driver.toList)

def RustcInput.parts : RustcInput → List Part
  | ⟨path, digest⟩ => [.text path, .digest digest]

def RustcLinkerIdentity.parts : RustcLinkerIdentity → List Part
  | ⟨driver, driverVersion, linkerVersion, crtObjects, sdk, deploymentTarget⟩ =>
      required [driver, driverVersion, linkerVersion] ++
        (crtObjects.flatMap fun (name, digest) => [.name name, .digest digest]) ++
        required sdk.toList ++ required deploymentTarget.toList

def RustcAction.parts : RustcAction → List Part
  | ⟨_version, kind, _adapterVersion, compiler, arguments, environment, inputs, linker⟩ =>
      .text kind :: (compiler.parts ++ texts arguments ++ settings environment ++
        inputs.flatMap RustcInput.parts ++ linker.toList.flatMap RustcLinkerIdentity.parts)

def CcArgument.parts : CcArgument → List Part
  | .plain value => [.text value]
  | .path flag location => texts [flag, location]
  | .prefixMap flag old new => texts [flag, old, new]
  | .source value => [.text value]

def CcPathBinding.parts : CcPathBinding → List Part
  | ⟨workingDir, arguments, roots⟩ =>
      .text workingDir :: (arguments.flatMap CcArgument.parts ++ pairs roots)

def CcPreprocessing.parts : CcPreprocessing → List Part
  | ⟨workingDir, arguments, roots⟩ => .text workingDir :: (texts arguments ++ pairs roots)

def CcCompiler.parts : CcCompiler → List Part
  | ⟨assembler, family, target, versionText⟩ =>
      .text assembler :: required [family, target, versionText]

def CcInput.parts : CcInput → List Part
  | ⟨digest, path⟩ => [.digest digest, .name path]

def CcAction.parts : CcAction → List Part
  | ⟨_version, kind, _adapterVersion, _assemblyInputModel, pathBinding, preprocessing, compiler,
      arguments, environment, inputs⟩ =>
      .text kind :: (pathBinding.toList.flatMap CcPathBinding.parts ++
        preprocessing.toList.flatMap CcPreprocessing.parts ++ compiler.parts ++ texts arguments ++
        settings environment ++ inputs.flatMap CcInput.parts)

def BuildScriptInput.parts : BuildScriptInput → List Part
  | .missing => []
  | .blockedByFile => []
  | .file digest => [.digest digest]
  | .directory digest => [.digest digest]
  | .symlink target referent => .text target :: referent.parts

def BuildScriptAction.parts : BuildScriptAction → List Part
  | ⟨_version, kind, archiveTimestamps, binaryAction, cargoEnvironment, checkout, environment,
      inputs, outDir⟩ =>
      [.text kind, .digest binaryAction] ++ texts archiveTimestamps.toList ++
        settings cargoEnvironment ++ texts checkout.toList ++ settings environment ++
        (inputs.flatMap fun (path, input) => .name path :: input.parts) ++ texts outDir.toList

def BuildScriptMetadata.parts : BuildScriptMetadata → List Part
  | ⟨_version, kind, stdout, stderr⟩ => [.text kind, .digest stdout, .digest stderr]

def BuildScriptInput.links : BuildScriptInput → Nat
  | .symlink _ referent => referent.links + 1
  | _ => 0

theorem digest_text {digest : Digest} (valid : digest.validate = true) :
    '\x00' ∉ digest.algorithm.toList ∧ '\x00' ∉ digest.hash.toList := by
  obtain ⟨⟨algorithm, kind⟩, _, lower⟩ := (validate_iff digest).mp valid
  constructor
  · rw [(algorithmKind_asStr digest algorithm).mp kind]
    cases algorithm <;> decide
  · intro nul
    have hexadecimal : Hex.isLower '\x00' = true := lower _ nul
    exact absurd hexadecimal (by decide)

theorem validString_iff (value : String) : validString value = true ↔ '\x00' ∉ value.toList := by
  simp [validString]

theorem Part.sound_iff (part : Part) :
    part.sound = true ↔ (∀ text ∈ part.strings, '\x00' ∉ text.toList) ∧
      (∀ digest ∈ part.digests, digest.validate = true) ∧ ∀ name ∈ part.names, name ≠ "" := by
  cases part with
  | text value => simp [sound, strings, digests, names, validString_iff]
  | name value => simp [sound, strings, digests, names, nonEmpty, validString_iff, and_comm]
  | digest value =>
      simp only [sound, strings, digests, names, List.mem_cons, List.not_mem_nil, or_false,
        forall_eq_or_imp, forall_eq, false_implies, implies_true, and_true]
      exact ⟨fun valid => ⟨digest_text valid, valid⟩, And.right⟩

theorem covered_iff (parts : List Part) : CoveredParts parts ↔ parts.all Part.sound = true := by
  simp only [List.all_eq_true, Part.sound_iff]
  constructor
  · intro covered part present
    refine ⟨fun text holds => ?_, fun digest holds => ?_, fun name holds => ?_⟩
    · exact covered.strings text (List.mem_flatMap.mpr ⟨part, present, holds⟩)
    · exact covered.digests digest (List.mem_flatMap.mpr ⟨part, present, holds⟩)
    · exact covered.names name (List.mem_flatMap.mpr ⟨part, present, holds⟩)
  · intro sound
    constructor
    · intro text holds
      obtain ⟨part, present, within⟩ := List.mem_flatMap.mp holds
      exact (sound part present).1 text within
    · intro digest holds
      obtain ⟨part, present, within⟩ := List.mem_flatMap.mp holds
      exact (sound part present).2.1 digest within
    · intro name holds
      obtain ⟨part, present, within⟩ := List.mem_flatMap.mp holds
      exact (sound part present).2.2 name within

section collected

@[simp] theorem texts_sound (values : List String) :
    (texts values).all Part.sound = validStrings values := by
  simp [texts, validStrings, List.all_map, Function.comp_def, Part.sound]

@[simp] theorem validStrings_nil : validStrings [] = true := rfl

@[simp] theorem validStrings_cons (value : String) (values : List String) :
    validStrings (value :: values) = (validString value && validStrings values) := rfl

@[simp] theorem pairs_sound (values : StringMap String) :
    (pairs values).all Part.sound = validStringMap values := by
  simp [pairs, validStringMap, List.all_flatMap, Part.sound]

theorem optional_all {α : Type} (value : Option α) (check : α → Bool) :
    value.toList.all check = noneOr value check := by
  cases value <;> simp [noneOr]

@[simp] theorem optional_sound (value : Option String) :
    validStrings value.toList = noneOr value validString := by
  cases value <;> simp [validStrings, noneOr]

@[simp] theorem settings_sound (values : StringMap (Option String)) :
    (settings values).all Part.sound = validOptionalStringMap values := by
  simp [settings, validOptionalStringMap, List.all_flatMap, Part.sound, nonEmpty]

@[simp] theorem required_sound (values : List String) :
    (required values).all Part.sound = values.all nonEmpty := by
  simp [required, List.all_map, Function.comp_def, Part.sound]

@[simp] theorem TaskRunEntry.parts_sound (entry : TaskRunEntry) :
    entry.parts.all Part.sound = entry.validate := by
  cases entry with
  | script text => simp [parts, validate, Part.sound]
  | single entry => simp [parts, validate, TaskRunSingle.parts, Part.sound, Bool.and_assoc]
  | group tasks => simp [parts, validate]

@[simp] theorem TaskCommandInput.parts_sound (input : TaskCommandInput) :
    input.parts.all Part.sound = input.validate := by
  simp [parts, validate, validStrings, Bool.and_assoc]

@[simp] theorem TaskOutput.parts_sound (output : TaskOutput) :
    output.parts.all Part.sound = output.validate := by
  obtain ⟨stream, line⟩ := output
  cases stream <;> simp [parts, validate, Part.sound]

@[simp] theorem RustcCompiler.parts_sound (compiler : RustcCompiler) :
    compiler.parts.all Part.sound = compiler.validate := by
  simp [parts, validate]

@[simp] theorem RustcLinkerIdentity.parts_sound (linker : RustcLinkerIdentity) :
    linker.parts.all Part.sound = linker.validate := by
  simp [parts, validate, optional_all, Part.sound, List.all_flatMap, Bool.and_assoc]

@[simp] theorem CcArgument.parts_sound (argument : CcArgument) :
    argument.parts.all Part.sound = argument.validate := by
  cases argument <;> simp [parts, validate, Part.sound, validStrings, Bool.and_assoc]

@[simp] theorem CcPathBinding.parts_sound (binding : CcPathBinding) :
    binding.parts.all Part.sound = binding.validate := by
  simp [parts, validate, Part.sound, List.all_flatMap, Bool.and_assoc]

@[simp] theorem CcPreprocessing.parts_sound (preprocessing : CcPreprocessing) :
    preprocessing.parts.all Part.sound = preprocessing.validate := by
  simp [parts, validate, Part.sound, Bool.and_assoc]

@[simp] theorem CcCompiler.parts_sound (compiler : CcCompiler) :
    compiler.parts.all Part.sound = compiler.validate := by
  simp [parts, validate, Part.sound]

@[simp] theorem CcInput.parts_sound (input : CcInput) :
    input.parts.all Part.sound = input.validate := by
  simp [parts, validate, Part.sound, Bool.and_comm]

end collected

/-- Depth is counted from the descriptor, so a chain may use what is left of 64. -/
theorem BuildScriptInput.validate_iff (input : BuildScriptInput) (depth : Nat) :
    input.validate depth = true ↔
      depth + input.links ≤ 64 ∧ input.parts.all Part.sound = true := by
  induction input generalizing depth with
  | missing => simp [validate, links, parts]
  | blockedByFile => simp [validate, links, parts]
  | file digest => simp [validate, links, parts, Part.sound]
  | directory digest => simp [validate, links, parts, Part.sound]
  | symlink target referent ih =>
      simp only [validate, links, parts, ih, Bool.and_eq_true, decide_eq_true_eq, List.all_cons,
        Part.sound]
      constructor
      · rintro ⟨⟨_, target⟩, chain, referent⟩
        exact ⟨by omega, target, referent⟩
      · rintro ⟨chain, target, referent⟩
        exact ⟨⟨by omega, target⟩, by omega, referent⟩

theorem distinctInputs_iff {α : Type} (check : α → Bool) (path : α → String) (inputs : List α)
    (paths : List String) :
    distinctInputs check path inputs paths = true ↔
      (∀ input ∈ inputs, check input = true) ∧ (inputs.map path).Nodup ∧
        ∀ input ∈ inputs, path input ∉ paths := by
  induction inputs generalizing paths with
  | nil => simp [distinctInputs]
  | cons input rest ih =>
      rw [List.forall_mem_cons, List.forall_mem_cons]
      simp only [distinctInputs, ih, Bool.and_eq_true, Bool.not_eq_true', List.map_cons,
        List.nodup_cons, List.mem_cons, not_or, List.mem_map]
      constructor
      · rintro ⟨⟨sound, fresh⟩, sounds, distinct, unseen⟩
        have new : path input ∉ paths := by simpa using fresh
        have alone : ¬ ∃ other ∈ rest, path other = path input := by
          rintro ⟨other, member, same⟩
          exact (unseen other member).1 same
        exact ⟨⟨sound, sounds⟩, ⟨alone, distinct⟩, new, fun other member =>
          (unseen other member).2⟩
      · rintro ⟨⟨sound, sounds⟩, ⟨alone, distinct⟩, new, unseen⟩
        exact ⟨⟨sound, by simpa using new⟩, sounds, distinct, fun other member =>
          ⟨fun same => alone ⟨other, member, same⟩, unseen other member⟩⟩

theorem RustcInput.validate_iff (input : RustcInput) :
    input.validate = true ↔
      input.parts.all Part.sound = true ∧ NormalizedPath input.path := by
  have clean : NormalizedPath input.path → validString input.path = true :=
    fun normalized => (validString_iff input.path).mpr normalized.clean
  simp only [validate, parts, Bool.and_eq_true, validNormalizedPath_iff, List.all_cons,
    List.all_nil, and_true, Part.sound]
  constructor
  · rintro ⟨normalized, digest⟩
    exact ⟨⟨clean normalized, digest⟩, normalized⟩
  · rintro ⟨⟨_, digest⟩, normalized⟩
    exact ⟨normalized, digest⟩

section descriptors

theorem TaskAction.validate_iff (action : TaskAction) :
    action.validate = true ↔ action.version = 1 ∧ action.kind = "task" ∧ CoveredParts action.parts := by
  have phase : (action.phase == .normal || action.phase == .post) = true := by
    cases action.phase <;> rfl
  have kind : action.kind = "task" → validString action.kind = true := fun same => same ▸ by decide
  rw [covered_iff]
  simp only [validate, parts, phase, Bool.and_eq_true, beq_iff_eq, List.all_append,
    List.all_flatMap, List.all_cons, and_true, texts_sound, pairs_sound, optional_sound, Part.sound,
    validStrings_cons, validStrings_nil, TaskRunEntry.parts_sound, TaskCommandInput.parts_sound]
  tauto

theorem TaskMetadata.validate_iff (metadata : TaskMetadata) :
    metadata.validate = true ↔
      metadata.version = 1 ∧ metadata.kind = "task" ∧ CoveredParts metadata.parts := by
  have kind : metadata.kind = "task" → validString metadata.kind = true :=
    fun same => same ▸ by decide
  rw [covered_iff]
  simp only [validate, parts, Bool.and_eq_true, beq_iff_eq, List.all_append, List.all_flatMap,
    and_true, texts_sound, validStrings_cons, validStrings_nil, TaskOutput.parts_sound]
  tauto

theorem BuildScriptMetadata.validate_iff (metadata : BuildScriptMetadata) :
    metadata.validate = true ↔
      metadata.version = 1 ∧ metadata.kind = "build-script" ∧ CoveredParts metadata.parts := by
  have kind : metadata.kind = "build-script" → validString metadata.kind = true :=
    fun same => same ▸ by decide
  rw [covered_iff]
  simp only [validate, parts, Part.sound, Bool.and_eq_true, beq_iff_eq, List.all_cons, List.all_nil,
    and_true]
  tauto

theorem RustcAction.validate_iff (action : RustcAction) :
    action.validate = true ↔
      action.version = 1 ∧ action.kind = "rustc" ∧ 0 < action.adapterVersion ∧
        CoveredParts action.parts ∧ action.inputs ≠ [] ∧
        (action.inputs.map RustcInput.path).Nodup ∧
        ∀ input ∈ action.inputs, NormalizedPath input.path := by
  have kind : action.kind = "rustc" → validString action.kind = true := fun same => same ▸ by decide
  have inputs : (∀ input ∈ action.inputs, input.validate = true) ↔
      (action.inputs.all fun input => input.parts.all Part.sound) = true ∧
        ∀ input ∈ action.inputs, NormalizedPath input.path := by
    simp only [RustcInput.validate_iff, List.all_eq_true, forall_and]
  rw [covered_iff]
  simp only [validate, parts, Bool.and_eq_true, beq_iff_eq, decide_eq_true_eq, List.all_append,
    List.all_flatMap, List.all_cons, texts_sound, settings_sound, optional_all,
    RustcCompiler.parts_sound, RustcLinkerIdentity.parts_sound, distinctInputs_iff, inputs,
    Bool.not_eq_true', List.isEmpty_eq_false_iff, List.not_mem_nil, not_false_iff, implies_true,
    and_true, Part.sound]
  tauto

theorem CcAction.validate_iff (action : CcAction) :
    action.validate = true ↔
      action.version = 1 ∧ action.kind = "cc" ∧ 0 < action.adapterVersion ∧
        (action.assemblyInputModel = none ∨ action.assemblyInputModel = some 1) ∧
        CoveredParts action.parts ∧ action.inputs ≠ [] ∧
        (action.inputs.map CcInput.path).Nodup := by
  have kind : action.kind = "cc" → validString action.kind = true := fun same => same ▸ by decide
  have model : noneOr action.assemblyInputModel (· == 1) = true ↔
      action.assemblyInputModel = none ∨ action.assemblyInputModel = some 1 := by
    cases action.assemblyInputModel <;> simp [noneOr]
  rw [covered_iff]
  simp only [validate, parts, Bool.and_eq_true, beq_iff_eq, decide_eq_true_eq, List.all_append,
    List.all_flatMap, List.all_cons, texts_sound, settings_sound, optional_all, model,
    CcPathBinding.parts_sound, CcPreprocessing.parts_sound, CcCompiler.parts_sound,
    CcInput.parts_sound, distinctInputs_iff, ← List.all_eq_true,
    Bool.not_eq_true', List.isEmpty_eq_false_iff, List.not_mem_nil, not_false_iff, implies_true,
    and_true, Part.sound]
  tauto

theorem BuildScriptAction.validate_iff (action : BuildScriptAction) :
    action.validate = true ↔
      (2 ≤ action.version ∧ action.version ≤ 5) ∧ action.kind = "build-script" ∧
        CoveredParts action.parts ∧ ∀ entry ∈ action.inputs, entry.2.links ≤ 64 := by
  have kind : action.kind = "build-script" → validString action.kind = true :=
    fun same => same ▸ by decide
  have inputs : (action.inputs.all fun (path, input) =>
      validString path && path != "" && input.validate 0) = true ↔
      (action.inputs.all fun (path, input) =>
        nonEmpty path && input.parts.all Part.sound) = true ∧
        ∀ entry ∈ action.inputs, entry.2.links ≤ 64 := by
    simp only [List.all_eq_true, nonEmpty, Bool.and_eq_true, BuildScriptInput.validate_iff,
      Nat.zero_add]
    constructor
    · intro valid
      exact ⟨fun entry member => ⟨(valid entry member).1.symm, (valid entry member).2.2⟩,
        fun entry member => (valid entry member).2.1⟩
    · rintro ⟨sound, short⟩ entry member
      exact ⟨(sound entry member).1.symm, short entry member, (sound entry member).2⟩
  rw [covered_iff]
  simp only [validate, parts, buildScriptActionSchemas, Bool.and_eq_true, beq_iff_eq,
    decide_eq_true_eq, List.all_append, List.all_flatMap, List.all_cons, List.all_nil, texts_sound,
    settings_sound, optional_sound, inputs, and_true, Part.sound]
  tauto

end descriptors

/-- Validation leaves out no string and no digest, and asks nothing else of them. -/
theorem descriptors_covered :
    (∀ action : TaskAction, action.validate = true ↔
      action.version = 1 ∧ action.kind = "task" ∧ CoveredParts action.parts) ∧
    (∀ action : RustcAction, action.validate = true ↔
      action.version = 1 ∧ action.kind = "rustc" ∧ 0 < action.adapterVersion ∧
        CoveredParts action.parts ∧ action.inputs ≠ [] ∧
        (action.inputs.map RustcInput.path).Nodup ∧
        ∀ input ∈ action.inputs, NormalizedPath input.path) ∧
    (∀ action : CcAction, action.validate = true ↔
      action.version = 1 ∧ action.kind = "cc" ∧ 0 < action.adapterVersion ∧
        (action.assemblyInputModel = none ∨ action.assemblyInputModel = some 1) ∧
        CoveredParts action.parts ∧ action.inputs ≠ [] ∧
        (action.inputs.map CcInput.path).Nodup) ∧
    (∀ action : BuildScriptAction, action.validate = true ↔
      (2 ≤ action.version ∧ action.version ≤ 5) ∧ action.kind = "build-script" ∧
        CoveredParts action.parts ∧ ∀ entry ∈ action.inputs, entry.2.links ≤ 64) ∧
    (∀ metadata : TaskMetadata, metadata.validate = true ↔
      metadata.version = 1 ∧ metadata.kind = "task" ∧ CoveredParts metadata.parts) ∧
    ∀ metadata : BuildScriptMetadata, metadata.validate = true ↔
      metadata.version = 1 ∧ metadata.kind = "build-script" ∧ CoveredParts metadata.parts :=
  ⟨TaskAction.validate_iff, RustcAction.validate_iff, CcAction.validate_iff,
    BuildScriptAction.validate_iff, TaskMetadata.validate_iff, BuildScriptMetadata.validate_iff⟩

end MbxCache
