import Leone.Registry.Files

/-!
# The programs of the model cache

A process that wants a model looks for a verified file under the shared lock. Otherwise it repairs the
directory under the exclusive lock, by a download into a partial file that is verified and renamed, and
looks again. What it returns holds the shared lock. A download ends with the process that began it.
-/

namespace Leone.Registry

open Framework

structure ModelEntry where
  id : String
  artifact : Name
  url : String
  sha256 : Digest

structure PartialIdentity where
  urlSha256 : Digest
  sha256 : Digest
  deriving DecidableEq

structure VerifiedArtifact where
  path : Name
  sha256 : Digest
  deriving DecidableEq

/-- SHA-256, and the JSON of a partial identity. -/
structure Codecs where
  sha256 : Bytes → Digest
  toVec : PartialIdentity → Bytes
  fromSlice : Bytes → Option PartialIdentity

variable (C : Codecs)

/-- A program of a process on the directory of a digest. -/
abbrev Task (α : Type) := Prog (files C.sha256) Fault α

/-- The operation, with its answer as it is. -/
def ask (op : Op) : Task C op.Answer := Prog.call (I := files C.sha256) op

/-- An operation whose error is returned. -/
def perform {α : Type} (x : Task C (Except Fault α)) : Task C α := x >>= Prog.ofExcept

def cacheFileState (name : Name) (label : String) : Task C Bool := do
  match ← ask C (.state name) with
  | .ok .link => Prog.fail (.invalid (label ++ " must not be a symlink"))
  | .ok .directory => Prog.fail (.invalid (label ++ " must be a regular file"))
  | .ok .file => pure true
  | .error .notFound => pure false
  | .error e => Prog.fail e

def verifiedDestination (model : ModelEntry) (destination : Name) : Task C (Option Name) := do
  if !(← cacheFileState C destination "model artifact") then return none
  let actual ← perform C (ask C (.hash destination))
  return if actual = model.sha256 then some destination else none

def useVerifiedDestination (model : ModelEntry) (destination : Name) : Task C (Option Name) := do
  if !(← cacheFileState C destination "model artifact") then return none
  let actual ← perform C (ask C (.hash destination))
  if actual = model.sha256 then return some destination
  let quarantine ← ask C (.fresh destination actual)
  perform C (ask C (.rename destination quarantine))
  return none

def isVerified (model : ModelEntry) (path : Name) : Task C Bool := do
  return decide ((← perform C (ask C (.hash path))) = model.sha256)

def urlSha256 (model : ModelEntry) : Digest := C.sha256 model.url.toUTF8.toList

def partialIdentityMatches (model : ModelEntry) (part : Name) : Task C Bool := do
  let identity := partialIdentityPath part
  if !(← cacheFileState C identity "partial identity") then return false
  let bytes ← perform C (ask C (.load identity))
  match C.fromSlice bytes with
  | none => return false
  | some value => return value.urlSha256 = urlSha256 C model && value.sha256 = model.sha256

def removeIfPresent (path : Name) : Task C Unit := do
  if !(← cacheFileState C path "cache entry") then return ()
  match ← ask C (.remove path) with
  | .ok _ => pure ()
  | .error .notFound => pure ()
  | .error e => Prog.fail e

def createPrivateFile (path : Name) (label : String) : Task C Unit := do
  match ← ask C (.create path) with
  | .ok _ => pure ()
  | .error _ => Prog.fail (.invalid ("cannot create " ++ label))

def writePrivateFile (path : Name) (bytes : Bytes) (label : String) : Task C Unit := do
  let _ ← cacheFileState C path label
  perform C (ask C (.write path bytes))

def preparePartialFile (model : ModelEntry) (part : Name) : Task C Bool := do
  if !(← cacheFileState C part "partial download") then
    createPrivateFile C part "partial download"
    return false
  if ← partialIdentityMatches C model part then return true
  removeIfPresent C part
  createPrivateFile C part "partial download"
  return false

def preparePartial (model : ModelEntry) (part : Name) : Task C Unit := do
  let kept ← preparePartialFile C model part
  if !kept then removeIfPresent C (partialIdentityPath part)
  writePrivateFile C (partialIdentityPath part) (C.toVec ⟨urlSha256 C model, model.sha256⟩)
    "partial identity"

def runCurl (url : String) (part : Name) : Task C Unit := perform C (ask C (.curl url part))

def retryEmptyDownload (model : ModelEntry) (part : Name) : Task C Unit := do
  removeIfPresent C part
  createPrivateFile C part "partial download"
  runCurl C model.url part

def handleResumeResult (model : ModelEntry) (part : Name) (resumed : Bool)
    (result : Except Fault Unit) : Task C Unit := do
  if !resumed then Prog.ofExcept result
  else
    match result with
    | .ok _ => if ← isVerified C model part then pure () else retryEmptyDownload C model part
    | .error _ =>
      match ← (retryEmptyDownload C model part).attempt with
      | .ok _ => pure ()
      | .error _ => Prog.fail (.invalid "download failed after resume retry")

def downloadModel (model : ModelEntry) (part : Name) : Task C Unit := do
  let _ ← cacheFileState C part "partial download"
  if model.url.startsWith "file://" then perform C (ask C (.copy (model.url.drop 7).toString part))
  else
    let offset ← perform C (ask C (.length part))
    let result ← (runCurl C model.url part).attempt
    handleResumeResult C model part (0 < offset) result

def verifyDownload (model : ModelEntry) (part : Name) : Task C Unit := do
  let actual ← perform C (ask C (.hash part))
  if actual = model.sha256 then return ()
  let quarantine ← ask C (.fresh part actual)
  perform C (ask C (.rename part quarantine))
  removeIfPresent C (partialIdentityPath part)
  Prog.fail (.invalid ("downloaded model has sha256 " ++ String.ofList actual ++ ", expected "
    ++ String.ofList model.sha256))

def ensurePartial (model : ModelEntry) (part : Name) : Task C Unit := do
  if ← cacheFileState C part "partial download" then
    if ← partialIdentityMatches C model part then
      if ← isVerified C model part then return ()
  preparePartial C model part
  downloadModel C model part
  verifyDownload C model part

def removePartialIdentity (part : Name) : Task C Unit := removeIfPresent C (partialIdentityPath part)

def removePartialFiles (part : Name) : Task C Unit := do
  removeIfPresent C part
  removePartialIdentity C part

def recoverInstallError (model : ModelEntry) (part destination : Name) (renameError : Fault) :
    Task C Unit := do
  if !(← cacheFileState C destination "model artifact") then Prog.fail renameError
  let actual ← perform C (ask C (.hash destination))
  if actual = model.sha256 then removePartialFiles C part
  else
    let quarantine ← ask C (.fresh destination actual)
    perform C (ask C (.rename destination quarantine))
    match ← ask C (.rename part destination) with
    | .ok _ => removePartialIdentity C part
    | .error _ => Prog.fail (.invalid "cannot install verified model")

def installVerifiedPartial (model : ModelEntry) (part destination : Name) : Task C Unit := do
  match ← ask C (.rename part destination) with
  | .ok _ => removePartialIdentity C part
  | .error renameError => recoverInstallError C model part destination renameError

/-- A lock that another process holds is refused, and it may be refused for other reasons. -/
def acquireLock (hold : Hold) : Task C Unit :=
  .lock hold fun granted => if granted then .done () else .fail (.invalid "another pull holds")

/-- What is verified keeps the lock. -/
def verifiedDestinationWithSharedLock (model : ModelEntry) (destination : Name) :
    Task C (Option VerifiedArtifact) := do
  acquireLock C .shared
  match ← (verifiedDestination C model destination).attempt with
  | .ok (some path) => pure (some ⟨path, model.sha256⟩)
  | .ok none => .unlock (pure none)
  | .error e => .unlock (Prog.fail e)

def ensureModelWithExclusiveLock (model : ModelEntry) (destination : Name) :
    Task C VerifiedArtifact := do
  acquireLock C .exclusive
  let repaired ← Prog.releasing (do
    if (← useVerifiedDestination C model destination).isSome then return false
    ensurePartial C model (partialPath destination)
    installVerifiedPartial C model (partialPath destination) destination
    return true)
  match ← verifiedDestinationWithSharedLock C model destination with
  | some artifact => pure artifact
  | none =>
    Prog.fail (.invalid (if repaired then "model artifact changed after installation"
      else "model artifact changed during verification"))

def ensureLockedModelAtLock (model : ModelEntry) (destination : Name) : Task C VerifiedArtifact := do
  match ← verifiedDestinationWithSharedLock C model destination with
  | some artifact => pure artifact
  | none => ensureModelWithExclusiveLock C model destination

def ensureModel (model : ModelEntry) : Task C VerifiedArtifact :=
  ensureLockedModelAtLock C model model.artifact

end Leone.Registry
