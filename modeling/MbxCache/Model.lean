import MbxCache.Digest
import MbxCache.Json

/-! The descriptors and metadata a client publishes (`model.rs`) and their checks. -/

namespace MbxCache

abbrev StringMap (α : Type) := List (String × α)

inductive TaskPhase
  | normal
  | post
  deriving DecidableEq, Repr

structure TaskRunSingle where
  task : String
  args : List String
  env : StringMap String

inductive TaskRunEntry
  | script (text : String)
  | single (entry : TaskRunSingle)
  | group (tasks : List String)

structure TaskCommandInput where
  command : String
  stdoutHash : String
  stderrHash : String

structure TaskAction where
  version : UInt8
  kind : String
  task : String
  phase : TaskPhase
  run : List TaskRunEntry
  args : List String
  shell : Option String
  outputs : List String
  root : String
  sourceHash : String
  dependencyKeys : List String
  environment : StringMap (Option String)
  commandInputs : List TaskCommandInput
  vars : StringMap String
  tools : List String
  os : String
  arch : String

inductive TaskOutputStream
  | stdout
  | stderr
  deriving DecidableEq, Repr

structure TaskOutput where
  stream : TaskOutputStream
  line : String

structure TaskMetadata where
  version : UInt8
  kind : String
  taskIdentity : String
  roots : List String
  output : List TaskOutput
  restoredBytes : UInt64
  executionDurationNs : UInt64

structure RustcCompiler where
  toolchain : String
  rustcVersion : String
  host : String
  driver : Option String

structure RustcInput where
  path : String
  digest : Digest

structure RustcLinkerIdentity where
  driver : String
  driverVersion : String
  linkerVersion : String
  crtObjects : StringMap Digest
  sdk : Option String
  deploymentTarget : Option String

structure RustcAction where
  version : UInt8
  kind : String
  adapterVersion : UInt8
  compiler : RustcCompiler
  arguments : List String
  environment : StringMap (Option String)
  inputs : List RustcInput
  linker : Option RustcLinkerIdentity

inductive CcArgument
  | plain (value : String)
  | path (flag location : String)
  | prefixMap (flag old new : String)
  | source (value : String)

structure CcPathBinding where
  workingDir : String
  arguments : List CcArgument
  roots : StringMap String

structure CcPreprocessing where
  workingDir : String
  arguments : List String
  roots : StringMap String

structure CcCompiler where
  assembler : String
  family : String
  target : String
  versionText : String

structure CcInput where
  digest : Digest
  path : String

structure CcAction where
  version : UInt8
  kind : String
  adapterVersion : UInt8
  assemblyInputModel : Option UInt8
  pathBinding : Option CcPathBinding
  preprocessing : Option CcPreprocessing
  compiler : CcCompiler
  arguments : List String
  environment : StringMap (Option String)
  inputs : List CcInput

inductive BuildScriptInput
  | missing
  | blockedByFile
  | file (digest : Digest)
  | directory (digest : Digest)
  | symlink (target : String) (referent : BuildScriptInput)

structure BuildScriptAction where
  version : UInt8
  kind : String
  archiveTimestamps : Option String
  binaryAction : Digest
  cargoEnvironment : StringMap (Option String)
  checkout : Option String
  environment : StringMap (Option String)
  inputs : StringMap BuildScriptInput
  outDir : Option String

structure BuildScriptMetadata where
  version : UInt8
  kind : String
  stdout : Digest
  stderr : Digest

/-- `BUILD_SCRIPT_ACTION_SCHEMAS` -/
def buildScriptActionSchemas (version : UInt8) : Bool := 2 ≤ version && version ≤ 5

def splitOn (separator : Char) : List Char → List (List Char)
  | [] => [[]]
  | c :: rest =>
      if c = separator then [] :: splitOn separator rest
      else
        match splitOn separator rest with
        | [] => [[c]]
        | first :: others => (c :: first) :: others

def validStrings (values : List String) : Bool := values.all validString

def validStringMap (values : StringMap String) : Bool :=
  values.all fun (key, value) => validString key && validString value

/-- An absent value passes, as `is_none_or` has it. -/
def noneOr {α : Type} (value : Option α) (check : α → Bool) : Bool := value.all check

def validOptionalStringMap (values : StringMap (Option String)) : Bool :=
  values.all fun (key, value) => key != "" && validString key && noneOr value validString

def nonEmpty (value : String) : Bool := value != "" && validString value

def safeComponent (component : List Char) : Bool :=
  component != [] && component != ['.'] && component != ['.', '.']

/-- `"${PLACEHOLDER}"`, alone or followed by a relative path. -/
def validNormalizedPath (path : String) : Bool :=
  match path.toList with
  | '$' :: '{' :: text =>
      if !text.contains '}' then false
      else
        let placeholder := text.takeWhile (· ≠ '}')
        let suffix := (text.dropWhile (· ≠ '}')).drop 1
        if placeholder = [] || !placeholder.all fun c => c.isAlphanum || c == '_' then false
        else
          match suffix with
          | [] => true
          | '/' :: relative =>
              relative != [] && !relative.contains '\\' && !relative.contains '\x00' &&
                (splitOn '/' relative).all safeComponent
          | _ => false
  | _ => false

def distinctInputs {α : Type} (check : α → Bool) (path : α → String) :
    List α → List String → Bool
  | [], _ => true
  | input :: rest, paths =>
      check input && !paths.contains (path input) &&
        distinctInputs check path rest (path input :: paths)

def TaskRunEntry.validate : TaskRunEntry → Bool
  | .script text => validString text
  | .single entry => validString entry.task && validStrings entry.args && validStringMap entry.env
  | .group tasks => validStrings tasks

def TaskCommandInput.validate (input : TaskCommandInput) : Bool :=
  validString input.command && validString input.stdoutHash && validString input.stderrHash

def TaskAction.validate (action : TaskAction) : Bool :=
  action.version == 1 && action.kind == "task" && validString action.task &&
    (action.phase == .normal || action.phase == .post) &&
    action.run.all TaskRunEntry.validate && validStrings action.args &&
    noneOr action.shell validString && validStrings action.outputs && validString action.root &&
    validString action.sourceHash && validStrings action.dependencyKeys &&
    (action.environment.all fun (key, value) => validString key && noneOr value validString) &&
    action.commandInputs.all TaskCommandInput.validate && validStringMap action.vars &&
    validStrings action.tools && validString action.os && validString action.arch

def TaskOutput.validate (output : TaskOutput) : Bool :=
  (output.stream == .stdout || output.stream == .stderr) && validString output.line

def TaskMetadata.validate (metadata : TaskMetadata) : Bool :=
  metadata.version == 1 && metadata.kind == "task" && validString metadata.taskIdentity &&
    validStrings metadata.roots && metadata.output.all TaskOutput.validate

def RustcCompiler.validate (compiler : RustcCompiler) : Bool :=
  ([compiler.toolchain, compiler.rustcVersion, compiler.host] ++ compiler.driver.toList).all
    nonEmpty

def RustcInput.validate (input : RustcInput) : Bool :=
  validNormalizedPath input.path && input.digest.validate

def RustcLinkerIdentity.validate (linker : RustcLinkerIdentity) : Bool :=
  [linker.driver, linker.driverVersion, linker.linkerVersion].all nonEmpty &&
    (linker.crtObjects.all fun (name, digest) => nonEmpty name && digest.validate) &&
    noneOr linker.sdk nonEmpty && noneOr linker.deploymentTarget nonEmpty

def RustcAction.validate (action : RustcAction) : Bool :=
  action.version == 1 && action.kind == "rustc" && 0 < action.adapterVersion &&
    action.compiler.validate && validStrings action.arguments &&
    validOptionalStringMap action.environment && !action.inputs.isEmpty &&
    distinctInputs RustcInput.validate RustcInput.path action.inputs [] &&
    noneOr action.linker RustcLinkerIdentity.validate

def CcArgument.validate : CcArgument → Bool
  | .plain value => validString value
  | .source value => validString value
  | .path flag location => validString flag && validString location
  | .prefixMap flag old new => validString flag && validString old && validString new

def CcPathBinding.validate (binding : CcPathBinding) : Bool :=
  validString binding.workingDir && binding.arguments.all CcArgument.validate &&
    validStringMap binding.roots

def CcPreprocessing.validate (preprocessing : CcPreprocessing) : Bool :=
  validString preprocessing.workingDir && validStrings preprocessing.arguments &&
    validStringMap preprocessing.roots

/-- The assembler identity may be empty, the other fields may not. -/
def CcCompiler.validate (compiler : CcCompiler) : Bool :=
  validString compiler.assembler &&
    [compiler.family, compiler.target, compiler.versionText].all nonEmpty

def CcInput.validate (input : CcInput) : Bool :=
  nonEmpty input.path && input.digest.validate

def CcAction.validate (action : CcAction) : Bool :=
  action.version == 1 && action.kind == "cc" && 0 < action.adapterVersion &&
    noneOr action.assemblyInputModel (· == 1) && noneOr action.pathBinding CcPathBinding.validate &&
    noneOr action.preprocessing CcPreprocessing.validate && action.compiler.validate &&
    validStrings action.arguments && validOptionalStringMap action.environment &&
    !action.inputs.isEmpty && distinctInputs CcInput.validate CcInput.path action.inputs []

/-- Symlinks nest at most 64 deep. -/
def BuildScriptInput.validate : BuildScriptInput → Nat → Bool
  | .missing, depth => depth ≤ 64
  | .blockedByFile, depth => depth ≤ 64
  | .file digest, depth => depth ≤ 64 && digest.validate
  | .directory digest, depth => depth ≤ 64 && digest.validate
  | .symlink target referent, depth =>
      depth ≤ 64 && validString target && referent.validate (depth + 1)

def BuildScriptAction.validate (action : BuildScriptAction) : Bool :=
  buildScriptActionSchemas action.version && action.kind == "build-script" &&
    noneOr action.archiveTimestamps validString && action.binaryAction.validate &&
    validOptionalStringMap action.cargoEnvironment && validOptionalStringMap action.environment &&
    (action.inputs.all fun (path, input) =>
      validString path && path != "" && input.validate 0) &&
    noneOr action.outDir validString && noneOr action.checkout validString

def BuildScriptMetadata.validate (metadata : BuildScriptMetadata) : Bool :=
  metadata.version == 1 && metadata.kind == "build-script" && metadata.stdout.validate &&
    metadata.stderr.validate

end MbxCache
