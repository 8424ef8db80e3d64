import Rpm.Dependency
import Rpm.Package.FileTable
import Rpm.Package.Writer
import Rpm.Version

/-!
Building binary packages.

A builder collects what a package is to say and to hold. The metadata header is derived from it, the
payload holds the files in the order of their paths, and both go to a writer.
-/

namespace Rpm

inductive FileSource where
  | data (bytes : ByteArray)
  /-- A stored file, which may not be there. -/
  | stored (file : Option StoredFile)
  | directory
  | symlink (target : String)

def FileSource.fileType : FileSource → UInt32
  | data _ | stored _ => Archive.regularFile
  | directory => Archive.directory
  | symlink _ => Archive.symbolicLink

def FileSource.linkTo : FileSource → String
  | symlink target => target
  | _ => ""

structure PackageFile where
  source : FileSource
  options : FileOptions

inductive ScriptKind where
  | preInstall
  | postInstall
  | preUninstall
  | postUninstall
  deriving DecidableEq, Repr

def scriptInterpreter : String := "/bin/sh"

namespace ScriptKind

def all : List ScriptKind := [preInstall, postInstall, preUninstall, postUninstall]

def textTag : ScriptKind → Tag .metadata
  | preInstall => MetadataTag.prein
  | postInstall => MetadataTag.postin
  | preUninstall => MetadataTag.preun
  | postUninstall => MetadataTag.postun

def programTag : ScriptKind → Tag .metadata
  | preInstall => MetadataTag.preinProg
  | postInstall => MetadataTag.postinProg
  | preUninstall => MetadataTag.preunProg
  | postUninstall => MetadataTag.postunProg

def flagsTag : ScriptKind → Tag .metadata
  | preInstall => MetadataTag.preinFlags
  | postInstall => MetadataTag.postinFlags
  | preUninstall => MetadataTag.preunFlags
  | postUninstall => MetadataTag.postunFlags

/-- When the program that runs a script is needed. -/
def sense : ScriptKind → Sense
  | preInstall => Sense.scriptPre
  | postInstall => Sense.scriptPost
  | preUninstall => Sense.scriptPreun
  | postUninstall => Sense.scriptPostun

def requirement (k : ScriptKind) : Dependency :=
  { name := scriptInterpreter, flags := Sense.interpreter ||| k.sense }

end ScriptKind

structure Change where
  time : UInt32
  author : String
  text : String
  deriving DecidableEq, Repr

/-- What a package is to say and to hold. -/
structure PackageBuilder where
  name : String
  version : String
  release : String
  arch : String
  /-- The time of the build in seconds since the start of 1970. -/
  buildTime : Int
  epoch : Option UInt32 := none
  summary : Option String := none
  description : Option String := none
  license : String := "Unspecified"
  group : String := "Unspecified"
  url : Option String := none
  vendor : Option String := none
  packager : Option String := none
  buildHost : String := "localhost"
  coding : Coding := Coding.default
  payloadFlags : Option PayloadFlags := none
  fileDigest : DigestAlgorithm := .default
  dependencies : List (DependencyKind × Dependency) := []
  scripts : List (ScriptKind × String) := []
  changes : List Change := []
  /-- The files by path, in ascending order. -/
  files : List (String × PackageFile) := []
  signers : List StandardProcessor := []

namespace PackageBuilder

/-! ### Registering -/

def addDependency (b : PackageBuilder) (kind : DependencyKind) (d : Dependency) : PackageBuilder :=
  { b with dependencies := b.dependencies ++ [(kind, d)] }

def setScript (b : PackageBuilder) (kind : ScriptKind) (text : String) : PackageBuilder :=
  { b with scripts := (kind, text) :: b.scripts.filter (·.1 ≠ kind) }

def addChange (b : PackageBuilder) (change : Change) : PackageBuilder :=
  { b with changes := b.changes ++ [change] }

/-- Puts a file into its place among others, or in the place of the one that has its path. -/
def insertFile (path : String) (file : PackageFile) :
    List (String × PackageFile) → List (String × PackageFile)
  | [] => [(path, file)]
  | (p, f) :: files =>
    match compare path p with
    | .lt => (path, file) :: (p, f) :: files
    | .eq => (path, file) :: files
    | .gt => (p, f) :: insertFile path file files

/-- Adds a file, in place of an earlier one of the same path. -/
def addFile (b : PackageBuilder) (path : String) (source : FileSource) (options : FileOptions) :
    Except Error PackageBuilder := do
  match source with
  | .symlink target => if !Recorder.isTarget target then throw (.invalidPath target)
  | _ => pure ()
  let path ← Path.normalize path
  return { b with files := insertFile path ⟨source, options⟩ b.files }

def addSigner (b : PackageBuilder) (p : StandardProcessor) : PackageBuilder :=
  { b with signers := b.signers ++ [p] }

/-! ### The metadata header -/

def fullName (b : PackageBuilder) : String := s!"{b.name}-{b.version}-{b.release}"

def headerBuildTime (b : PackageBuilder) : Except Error UInt32 :=
  if b.buildTime < 0 then .error (.unsupported "build times before the UNIX epoch")
  else if b.buildTime ≥ 2 ^ 32 then .error (.unsupported "build times after 2106")
  else .ok (UInt32.ofNat b.buildTime.toNat)

/-- The features of the RPM library that a package needs. -/
def rpmlibRequirements (b : PackageBuilder) : List Dependency :=
  [Dependency.rpmlib "CompressedFileNames" "3.0.4-1",
    Dependency.rpmlib "PayloadFilesHavePrefix" "4.0-1"] ++
  (if b.fileDigest ≠ .md5 then [Dependency.rpmlib "FileDigests" "4.6.0-1"] else []) ++
  b.coding.dependency?.toList

def orderedScripts (b : PackageBuilder) : List (ScriptKind × String) :=
  ScriptKind.all.filterMap fun k => (b.scripts.lookup k).map (k, ·)

def addedDependencies (b : PackageBuilder) (kind : DependencyKind) : List Dependency :=
  (b.dependencies.filter (·.1 = kind)).map (·.2)

/-- The dependencies of a kind, with those that every package has: it requires what its form and its
scripts need, and provides itself. -/
def dependenciesOf (b : PackageBuilder) (evr : Version) (kind : DependencyKind) : List Dependency :=
  (match kind with
    | .require => b.rpmlibRequirements ++ b.orderedScripts.map (·.1.requirement)
    | .provide => [Dependency.equals b.name evr.display]
    | _ => []) ++ b.addedDependencies kind

def setOptional (h : Header .metadata) (tag : Tag .metadata) (s : Option String) :
    Except Error (Header .metadata) :=
  match s with
  | none => .ok h
  | some s => h.set tag s

def setDescription (b : PackageBuilder) (h : Header .metadata) (buildTime : UInt32) :
    Except Error (Header .metadata) := do
  let summary := b.summary.getD b.name
  let h ← h.set MetadataTag.headerI18nTable (.stringArray ["C"])
  let h ← h.set MetadataTag.name b.name
  let h ← h.set MetadataTag.version b.version
  let h ← h.set MetadataTag.release b.release
  let h ← match b.epoch with
    | none => pure h
    | some n => h.set MetadataTag.epoch n
  let h ← h.set MetadataTag.summary (.i18nString [summary])
  let h ← h.set MetadataTag.description (.i18nString [b.description.getD summary])
  let h ← h.set MetadataTag.buildTime buildTime
  let h ← h.set MetadataTag.buildHost b.buildHost
  let h ← h.set MetadataTag.license b.license
  let h ← h.set MetadataTag.group (.i18nString [b.group])
  let h ← setOptional h MetadataTag.url b.url
  let h ← setOptional h MetadataTag.vendor b.vendor
  let h ← setOptional h MetadataTag.packager b.packager
  let h ← h.set MetadataTag.os "linux"
  let h ← h.set MetadataTag.arch b.arch
  let h ← h.set MetadataTag.sourceRpm s!"{b.fullName}.src.rpm"
  h.set MetadataTag.encoding "utf-8"

def setScriptEntries (h : Header .metadata) (script : ScriptKind × String) :
    Except Error (Header .metadata) := do
  let (kind, text) := script
  let h ← h.set kind.textTag text
  let h ← h.set kind.programTag scriptInterpreter
  h.set kind.flagsTag (0 : UInt32)

open MetadataTag in
def setChanges (h : Header .metadata) (changes : List Change) : Except Error (Header .metadata) :=
  if changes.isEmpty then .ok h
  else do
    let h ← h.set changelogTime (.int32 (changes.map (·.time)))
    let h ← h.set changelogName (.stringArray (changes.map (·.author)))
    h.set changelogText (.stringArray (changes.map (·.text)))

def metadataHeader (b : PackageBuilder) (evr : Version) (buildTime : UInt32)
    (files : List FileRecord) : Except Error (Header .metadata) := do
  let h ← b.setDescription .empty buildTime
  let h ← h.setSize MetadataTag.size MetadataTag.longSize (totalSize files)
  let h ← h.setFiles files b.fileDigest
  let h ← b.orderedScripts.foldlM setScriptEntries h
  let h ← DependencyKind.all.foldlM
    (fun h kind => h.setDependencies kind (b.dependenciesOf evr kind)) h
  setChanges h b.changes

/-! ### The payload -/

def record (r : Recorder PayloadDigester) (path : String) (file : PackageFile) (mtime : UInt32) :
    Recorder PayloadDigester × Except Error PayloadEntry :=
  match file.source with
  | .data bytes => r.addFile path bytes file.options.permissions mtime
  | .stored stored => r.addStored path stored file.options.permissions mtime
  | .directory => r.addDirectory path file.options.permissions mtime
  | .symlink target => r.addSymlink path target mtime

/-- Adds files to the payload, and returns what the header is to say of them. -/
def recordAll (r : Recorder PayloadDigester) (buildTime : UInt32) :
    List (String × PackageFile) → Except Error (Recorder PayloadDigester × List FileRecord)
  | [] => .ok (r, [])
  | (path, file) :: files =>
    let mtime := file.options.mtime.getD buildTime
    match record r path file mtime with
    | (_, .error e) => .error e
    | (r, .ok entry) => do
      let (r, records) ← recordAll r buildTime files
      return (r, FileRecord.ofEntry entry file.source.fileType file.source.linkTo file.options mtime
        :: records)

def content (b : PackageBuilder) : Except Error (FinishedPayload × Header .metadata) := do
  let evr ← Version.new b.epoch b.version (some b.release)
  let buildTime ← b.headerBuildTime
  let r ← Recorder.new b.coding b.payloadFlags b.fileDigest
  let r ← r.addProcessor PayloadDigester.default
  let (r, records) ← recordAll r buildTime b.files
  let payload ← r.finish.2
  let header ← b.metadataHeader evr buildTime records
  return (payload, header)

/-- Builds the package and writes it to a sink. -/
def build {τ : Type} [ByteSink τ] (b : PackageBuilder) (sink : τ) : τ × Except Error Unit :=
  match b.content with
  | .error e => (sink, .error e)
  | .ok (payload, header) =>
    let lead := Lead.new .binary b.arch b.fullName
    let writer := { Writer.new sink lead with header, payload := some payload }
    match b.signers.foldlM (fun (w : Writer τ StandardProcessor) p => w.addProcessor p) writer with
    | .error e => (sink, .error e)
    | .ok writer =>
      let (writer, r) := writer.finish
      (writer.sink, r)

end PackageBuilder

end Rpm
