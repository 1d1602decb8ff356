import Codex.FileTools.ReadFile
import Codex.Sandbox.Permissions

/-!
# What a denied file can show

The model of `core/src/tools/handlers/view_image.rs`, and what the two file
tools let the model learn about files that the policy of the turn denies.
-/

namespace Codex.FileTools.DeniedReads

open ReadFile Protocol.Models Sandbox.Paths Sandbox.Permissions Turn.ToolCalls List

/-! ## Turns -/

/-- Where the file system of an environment is. -/
inductive Location where
  | thisHost
  | remote (name : String)
deriving DecidableEq

abbrev FileSystems := Location → FileSystemState

structure TurnEnvironment where
  environmentId : String
  location : Location
  cwd : AbsolutePathBuf

/-- What the file tools take from `TurnContext`. -/
structure TurnContext where
  /-- `input_modalities` has `InputModality::Image`. -/
  supportsImages : Bool
  canRequestOriginalImageDetail : Bool
  turnEnvironments : List TurnEnvironment
  cwd : AbsolutePathBuf
  fileSystemSandboxPolicy : FileSystemSandboxPolicy

def resolveToolEnvironment (turn : TurnContext) :
    Option String → Except FunctionCallError (Option TurnEnvironment)
  | none => .ok turn.turnEnvironments.head?
  | some environmentId =>
    match turn.turnEnvironments.find? (·.environmentId == environmentId) with
    | some env => .ok (some env)
    | none => .error (.respondToModel ("unknown turn environment id `" ++ environmentId ++ "`"))

/-! ## Sandboxed operations -/

/-- `get_metadata`, of which the image tool uses `is_file`. -/
def HostFile.isFile : HostFile → Except String Bool
  | .absent error => .error error
  | .present isFile _ _ _ => .ok isFile

def HostFile.readFile (file : HostFile) : Except String (List UInt8) := do
  let opened ← file.openFile
  match opened.readError with
  | some error => .error error
  | none => .ok opened.bytes

variable {turn : TurnContext} {env : TurnEnvironment} {before after : FileSystems}

section Tools

variable (host : Host) (deniedError : AbsolutePathBuf → String)

/--
A file system operation that is given the sandbox context of a turn for a
working directory.
-/
def sandboxed {Result : Type} (policy : FileSystemSandboxPolicy)
    (cwd : AbsolutePathBuf) (state : FileSystemState) (path : AbsolutePathBuf)
    (operation : HostFile → Except String Result) : Except String Result :=
  if policy.canReadPathWithCwd host (asPath path) cwd then operation (state (asPath path))
  else .error (deniedError path)

structure ViewImageArgs where
  path : String
  environmentId : Option String := none
  detail : Option String := none
deriving DecidableEq

inductive PromptImageMode where
  | original
  | resizeToFit
deriving DecidableEq

/-- The reading of `detail`: whether it asks for the original. -/
def wantsOriginal : Option String → Except FunctionCallError Bool
  | none => .ok false
  | some "high" => .ok false
  | some "original" => .ok true
  | some detail =>
    .error (.respondToModel
      ("view_image.detail only supports `high` or `original`; omit `detail` " ++
        "for default high resized behavior, got `" ++ detail ++ "`"))

variable (parseReadFileArgs : String → Except String ReadFileArgs)
  (parseViewImageArgs : String → Except String ViewImageArgs)
  (fromUtf8Lossy : List UInt8 → String)
  (loadForPromptBytes : AbsolutePathBuf → List UInt8 → PromptImageMode → Except String String)

def imageError (front : String) (path : AbsolutePathBuf) (error : String) : FunctionCallError :=
  .respondToModel (front ++ " `" ++ toText path ++ "`" ++ error)

def viewImageIn (turn : TurnContext) (env : TurnEnvironment)
    (state : FileSystemState) (path : String) (original : Bool) :
    Except FunctionCallError ToolOutput := do
  let cwd := env.cwd
  let absPath := resolvePathAgainstBase host.homeDirectory (parsePath path) cwd
  let policy := turn.fileSystemSandboxPolicy
  let isFile ←
    (sandboxed host deniedError policy cwd state absPath HostFile.isFile).mapError fun error =>
        imageError "unable to locate image at" absPath (": " ++ error)
  if !isFile then .error (imageError "image path" absPath " is not a file")
  else
    let fileBytes ←
      (sandboxed host deniedError policy cwd state absPath HostFile.readFile).mapError fun error =>
          imageError "unable to read image at" absPath (": " ++ error)
    let useOriginalDetail := turn.canRequestOriginalImageDetail && original
    let imageUrl ←
      (loadForPromptBytes absPath fileBytes
        (if useOriginalDetail then .original else .resizeToFit)).mapError fun error =>
            imageError "unable to process image at" absPath (": " ++ error)
    .ok (.function ⟨.contentItems [.inputImage imageUrl
      (some (if useOriginalDetail then .original else .high))], some true⟩)

def handleViewImage (turn : TurnContext) (files : FileSystems)
    (payload : ToolPayload) : Except FunctionCallError ToolOutput := do
  if !turn.supportsImages then
    .error (.respondToModel "view_image is not allowed because you do not support image inputs")
  else
    match payload with
    | .function arguments =>
      match parseViewImageArgs arguments with
      | .error error => .error (.respondToModel ("failed to parse function arguments: " ++ error))
      | .ok args =>
        let original ← wantsOriginal args.detail
        match ← resolveToolEnvironment turn args.environmentId with
        | none => .error (.respondToModel "view_image is unavailable in this session")
        | some env =>
          viewImageIn host deniedError loadForPromptBytes turn env
            (files env.location) args.path original
    | _ => .error (.respondToModel "view_image handler received unsupported payload")

/-! ## Two states of the files -/

/-- The policy of the turn lets a path be read from one of its directories. -/
def TurnContext.mayRead (turn : TurnContext) (path : Path) : Bool :=
  (turn.cwd :: turn.turnEnvironments.map (·.cwd)).any fun cwd =>
    turn.fileSystemSandboxPolicy.canReadPathWithCwd host path cwd

/-- Two states that differ at denied paths only. -/
def AgreeOnReadable (turn : TurnContext) (before after : FileSystems) : Prop :=
  ∀ location path, path.isAbsolute = true → turn.mayRead host path = true →
    before location path = after location path

variable {host}

theorem mayRead_eq_of_isAbsolute {path : Path} (isAbsolute : path.isAbsolute = true) :
    turn.mayRead host path = turn.mayRead host (asPath (normalizeFrom [] path.components)) := by
  simp only [TurnContext.mayRead, canRead_of_isAbsolute isAbsolute]

variable {deniedError}

/-- Sandboxed operations cannot tell such states apart. -/
theorem sandboxed_congr {Result : Type} (agree : AgreeOnReadable host turn before after)
    (mem : env ∈ turn.turnEnvironments) (path : AbsolutePathBuf)
    (operation : HostFile → Except String Result) :
    sandboxed host deniedError turn.fileSystemSandboxPolicy env.cwd
        (before env.location) path operation =
      sandboxed host deniedError turn.fileSystemSandboxPolicy env.cwd
        (after env.location) path operation := by
  unfold sandboxed
  split_ifs with readable
  · have mayRead : turn.mayRead host (asPath path) = true := by
      refine any_eq_true.mpr ⟨env.cwd, ?_, readable⟩
      exact mem_cons_of_mem _ (mem_map_of_mem mem)
    rw [agree env.location (asPath path) rfl mayRead]
  · rfl

theorem mem_of_resolveToolEnvironment {environmentId : Option String}
    (resolved : resolveToolEnvironment turn environmentId = .ok (some env)) :
    env ∈ turn.turnEnvironments := by
  cases environmentId with
  | none =>
    refine mem_of_mem_head? ?_
    simpa [resolveToolEnvironment] using resolved
  | some environmentId =>
    cases found : turn.turnEnvironments.find? (·.environmentId == environmentId) with
    | none => simp [resolveToolEnvironment, found] at resolved
    | some _ =>
      simp only [resolveToolEnvironment, found, Except.ok.injEq, Option.some.injEq] at resolved
      exact resolved ▸ mem_of_find?_eq_some found

variable {parseViewImageArgs} {loadForPromptBytes}

theorem handleViewImage_congr (agree : AgreeOnReadable host turn before after)
    (payload : ToolPayload) :
    handleViewImage host deniedError parseViewImageArgs loadForPromptBytes turn before payload =
      handleViewImage host deniedError parseViewImageArgs loadForPromptBytes
        turn after payload := by
  unfold handleViewImage
  split_ifs
  · rfl
  split
  · split
    · rfl
    · next args parsed =>
      cases wantsOriginal args.detail with
      | error => rfl
      | ok original =>
        cases resolved : resolveToolEnvironment turn args.environmentId with
        | error => rfl
        | ok found =>
          cases found with
          | none => rfl
          | some env =>
            have same := fun {Result : Type} => @sandboxed_congr turn env
              before after host deniedError Result agree (mem_of_resolveToolEnvironment resolved)
            simp only [Bind.bind, Except.bind, viewImageIn, same]
  · rfl

/-! ## Where denied files stay hidden -/

variable (host deniedError parseViewImageArgs loadForPromptBytes)

/--
What the file tools return is the same in every two states that agree on the
readable paths, exactly if the reader of files does not reach a denied one.
-/
theorem denied_files_stay_hidden_iff (turn : TurnContext) (payload : ToolPayload) :
    (∀ before after, AgreeOnReadable host turn before after →
      handleReadFile fromUtf8Lossy parseReadFileArgs (before .thisHost) payload =
        handleReadFile fromUtf8Lossy parseReadFileArgs (after .thisHost) payload ∧
      handleViewImage host deniedError parseViewImageArgs loadForPromptBytes turn before payload =
        handleViewImage host deniedError parseViewImageArgs loadForPromptBytes turn after payload) ↔
      ∀ arguments args, payload = .function arguments →
        parseReadFileArgs arguments = .ok args → args.ReachesFile →
          turn.mayRead host (parsePath args.filePath) = true := by
  constructor
  · intro hidden arguments args isFunction parsed reaches
    by_contra denied
    let target := normalizeFrom [] (parsePath args.filePath).components
    let before : FileSystems := fun _ _ => .absent ""
    let after : FileSystems := fun _ path =>
      if normalizeFrom [] path.components = target then .present true none [] none
      else .absent ""
    -- The states differ at the spellings of the denied path only.
    have agree : AgreeOnReadable host turn before after := by
      intro location path isAbsolute readable
      have other : normalizeFrom [] path.components ≠ target := by
        intro same
        rw [mayRead_eq_of_isAbsolute isAbsolute, same,
          ← mayRead_eq_of_isAbsolute reaches.isAbsolute] at readable
        exact denied readable
      exact (if_neg other).symm
    have missing : before .thisHost (parsePath args.filePath) = .absent "" := rfl
    have created : after .thisHost (parsePath args.filePath) =
          .present true none [] none := if_pos rfl
    subst isFunction
    exact handleReadFile_ne parseReadFileArgs parsed reaches missing created
      (hidden before after agree).1
  · intro readable before after agree
    refine ⟨handleReadFile_congr parseReadFileArgs ?_, handleViewImage_congr agree payload⟩
    intro arguments args isFunction parsed reaches
    exact agree .thisHost (parsePath args.filePath) reaches.isAbsolute
      (readable arguments args isFunction parsed reaches)

end Tools

/-! ## A secret that is read -/

/-- A turn that may read everything but one directory. -/
def guardedTurn : TurnContext where
  supportsImages := false
  canRequestOriginalImageDetail := false
  turnEnvironments := [⟨"local", .thisHost, ["w"]⟩]
  cwd := ["w"]
  fileSystemSandboxPolicy := .restricted [⟨.special .root, .read⟩, ⟨.path ["s"], .deny⟩]

def withoutSecret : FileSystems := fun _ _ => .absent "not found"

def withSecret : FileSystems := fun _ path =>
  if path = asPath ["s", "k"] then .present true none [107, 101, 121, 10] none
  else .absent "not found"

/-- The reader of the arguments, where they ask for the secret. -/
def readSecretArgs (_arguments : String) : Except String ReadFileArgs := .ok { filePath := "/s/k" }

/-- The reader of files returns a denied file. -/
theorem denied_file_is_returned : AgreeOnReadable bareHost guardedTurn withoutSecret withSecret ∧
      handleReadFile fromAscii readSecretArgs (withoutSecret .thisHost)
          (.function "\x7b\"file_path\":\"/s/k\"\x7d") =
        .error (.respondToModel "failed to read file: not found") ∧
      handleReadFile fromAscii readSecretArgs (withSecret .thisHost)
          (.function "\x7b\"file_path\":\"/s/k\"\x7d") =
        .ok (.content [.inputText "L1: key"] (some true)) := by
  refine ⟨?_, by decide +kernel, by decide +kernel⟩
  intro location path isAbsolute readable
  have other : path ≠ asPath ["s", "k"] := by
    rintro rfl
    exact absurd readable (by decide +kernel)
  exact (if_neg other).symm

end Codex.FileTools.DeniedReads
