import Rpm.Header.ValueType

/-!
The known tags of the two kinds of header.

The signature header says what the rest of the file has to be like; the metadata header describes
the package. Both use the same numbers for different things.
-/

namespace Rpm

inductive Namespace where
  | signature
  | metadata
  deriving DecidableEq, Repr

/-- A tag of a kind of header: its number, its name and the type of its values. -/
structure Tag (ns : Namespace) where
  id : UInt32
  name : String
  type : ValueType
  deriving DecidableEq

namespace Namespace

def name : Namespace → String
  | signature => "signature"
  | metadata => "metadata"

def region : Namespace → UInt32
  | signature => 62
  | metadata => 63

end Namespace

/-! ### Tags of the signature header -/

namespace SignatureTag

def dsaHeader : Tag .signature := ⟨267, "DsaHeader", .bin⟩
def rsaHeader : Tag .signature := ⟨268, "RsaHeader", .bin⟩
def sha1Header : Tag .signature := ⟨269, "Sha1Header", .string⟩
def longSize : Tag .signature := ⟨270, "LongSize", .int64⟩
def longArchiveSize : Tag .signature := ⟨271, "LongArchiveSize", .int64⟩
def sha256Header : Tag .signature := ⟨273, "Sha256Header", .string⟩
def fileSignatures : Tag .signature := ⟨274, "FileSignatures", .stringArray⟩
def fileSignatureLength : Tag .signature := ⟨275, "FileSignatureLength", .int32⟩
def size : Tag .signature := ⟨1000, "Size", .int32⟩
def pgp : Tag .signature := ⟨1002, "Pgp", .bin⟩
def md5 : Tag .signature := ⟨1004, "Md5", .bin⟩
def gpg : Tag .signature := ⟨1005, "Gpg", .bin⟩
def payloadSize : Tag .signature := ⟨1007, "PayloadSize", .int32⟩
def reservedSpace : Tag .signature := ⟨1008, "ReservedSpace", .bin⟩

def all : List (Tag .signature) := [
  dsaHeader, rsaHeader, sha1Header, longSize, longArchiveSize, sha256Header, fileSignatures,
  fileSignatureLength, size, pgp, md5, gpg, payloadSize, reservedSpace]

end SignatureTag

/-! ### Tags of the metadata header -/

namespace MetadataTag

def headerI18nTable : Tag .metadata := ⟨100, "HeaderI18nTable", .stringArray⟩
def name : Tag .metadata := ⟨1000, "Name", .string⟩
def version : Tag .metadata := ⟨1001, "Version", .string⟩
def release : Tag .metadata := ⟨1002, "Release", .string⟩
def epoch : Tag .metadata := ⟨1003, "Epoch", .int32⟩
def summary : Tag .metadata := ⟨1004, "Summary", .i18nString⟩
def description : Tag .metadata := ⟨1005, "Description", .i18nString⟩
def buildTime : Tag .metadata := ⟨1006, "BuildTime", .int32⟩
def buildHost : Tag .metadata := ⟨1007, "BuildHost", .string⟩
def size : Tag .metadata := ⟨1009, "Size", .int32⟩
def distribution : Tag .metadata := ⟨1010, "Distribution", .string⟩
def vendor : Tag .metadata := ⟨1011, "Vendor", .string⟩
def license : Tag .metadata := ⟨1014, "License", .string⟩
def packager : Tag .metadata := ⟨1015, "Packager", .string⟩
def group : Tag .metadata := ⟨1016, "Group", .i18nString⟩
def url : Tag .metadata := ⟨1020, "Url", .string⟩
def os : Tag .metadata := ⟨1021, "Os", .string⟩
def arch : Tag .metadata := ⟨1022, "Arch", .string⟩
def prein : Tag .metadata := ⟨1023, "Prein", .string⟩
def postin : Tag .metadata := ⟨1024, "Postin", .string⟩
def preun : Tag .metadata := ⟨1025, "Preun", .string⟩
def postun : Tag .metadata := ⟨1026, "Postun", .string⟩
def fileSizes : Tag .metadata := ⟨1028, "FileSizes", .int32⟩
def fileModes : Tag .metadata := ⟨1030, "FileModes", .int16⟩
def fileRdevs : Tag .metadata := ⟨1033, "FileRdevs", .int16⟩
def fileMtimes : Tag .metadata := ⟨1034, "FileMtimes", .int32⟩
def fileDigests : Tag .metadata := ⟨1035, "FileDigests", .stringArray⟩
def fileLinkTos : Tag .metadata := ⟨1036, "FileLinkTos", .stringArray⟩
def fileFlags : Tag .metadata := ⟨1037, "FileFlags", .int32⟩
def fileUserName : Tag .metadata := ⟨1039, "FileUserName", .stringArray⟩
def fileGroupName : Tag .metadata := ⟨1040, "FileGroupName", .stringArray⟩
def sourceRpm : Tag .metadata := ⟨1044, "SourceRpm", .string⟩
def fileVerifyFlags : Tag .metadata := ⟨1045, "FileVerifyFlags", .int32⟩
def archiveSize : Tag .metadata := ⟨1046, "ArchiveSize", .int32⟩
def provideName : Tag .metadata := ⟨1047, "ProvideName", .stringArray⟩
def requireFlags : Tag .metadata := ⟨1048, "RequireFlags", .int32⟩
def requireName : Tag .metadata := ⟨1049, "RequireName", .stringArray⟩
def requireVersion : Tag .metadata := ⟨1050, "RequireVersion", .stringArray⟩
def conflictFlags : Tag .metadata := ⟨1053, "ConflictFlags", .int32⟩
def conflictName : Tag .metadata := ⟨1054, "ConflictName", .stringArray⟩
def conflictVersion : Tag .metadata := ⟨1055, "ConflictVersion", .stringArray⟩
def rpmVersion : Tag .metadata := ⟨1064, "RpmVersion", .string⟩
def changelogTime : Tag .metadata := ⟨1080, "ChangelogTime", .int32⟩
def changelogName : Tag .metadata := ⟨1081, "ChangelogName", .stringArray⟩
def changelogText : Tag .metadata := ⟨1082, "ChangelogText", .stringArray⟩
def preinProg : Tag .metadata := ⟨1085, "PreinProg", .string⟩
def postinProg : Tag .metadata := ⟨1086, "PostinProg", .string⟩
def preunProg : Tag .metadata := ⟨1087, "PreunProg", .string⟩
def postunProg : Tag .metadata := ⟨1088, "PostunProg", .string⟩
def obsoleteName : Tag .metadata := ⟨1090, "ObsoleteName", .stringArray⟩
def cookie : Tag .metadata := ⟨1094, "Cookie", .string⟩
def fileDevices : Tag .metadata := ⟨1095, "FileDevices", .int32⟩
def fileInodes : Tag .metadata := ⟨1096, "FileInodes", .int32⟩
def fileLangs : Tag .metadata := ⟨1097, "FileLangs", .stringArray⟩
def prefixes : Tag .metadata := ⟨1098, "Prefixes", .stringArray⟩
def provideFlags : Tag .metadata := ⟨1112, "ProvideFlags", .int32⟩
def provideVersion : Tag .metadata := ⟨1113, "ProvideVersion", .stringArray⟩
def obsoleteFlags : Tag .metadata := ⟨1114, "ObsoleteFlags", .int32⟩
def obsoleteVersion : Tag .metadata := ⟨1115, "ObsoleteVersion", .stringArray⟩
def dirIndexes : Tag .metadata := ⟨1116, "DirIndexes", .int32⟩
def baseNames : Tag .metadata := ⟨1117, "BaseNames", .stringArray⟩
def dirNames : Tag .metadata := ⟨1118, "DirNames", .stringArray⟩
def optFlags : Tag .metadata := ⟨1122, "OptFlags", .string⟩
def payloadFormat : Tag .metadata := ⟨1124, "PayloadFormat", .string⟩
def payloadCompressor : Tag .metadata := ⟨1125, "PayloadCompressor", .string⟩
def payloadFlags : Tag .metadata := ⟨1126, "PayloadFlags", .string⟩
def platform : Tag .metadata := ⟨1132, "Platform", .string⟩
def longFileSizes : Tag .metadata := ⟨5008, "LongFileSizes", .int64⟩
def longSize : Tag .metadata := ⟨5009, "LongSize", .int64⟩
def fileDigestAlgo : Tag .metadata := ⟨5011, "FileDigestAlgo", .int32⟩
def bugUrl : Tag .metadata := ⟨5012, "BugUrl", .string⟩
def preinFlags : Tag .metadata := ⟨5020, "PreinFlags", .int32⟩
def postinFlags : Tag .metadata := ⟨5021, "PostinFlags", .int32⟩
def preunFlags : Tag .metadata := ⟨5022, "PreunFlags", .int32⟩
def postunFlags : Tag .metadata := ⟨5023, "PostunFlags", .int32⟩
def recommendName : Tag .metadata := ⟨5046, "RecommendName", .stringArray⟩
def recommendVersion : Tag .metadata := ⟨5047, "RecommendVersion", .stringArray⟩
def recommendFlags : Tag .metadata := ⟨5048, "RecommendFlags", .int32⟩
def suggestName : Tag .metadata := ⟨5049, "SuggestName", .stringArray⟩
def suggestVersion : Tag .metadata := ⟨5050, "SuggestVersion", .stringArray⟩
def suggestFlags : Tag .metadata := ⟨5051, "SuggestFlags", .int32⟩
def supplementName : Tag .metadata := ⟨5052, "SupplementName", .stringArray⟩
def supplementVersion : Tag .metadata := ⟨5053, "SupplementVersion", .stringArray⟩
def supplementFlags : Tag .metadata := ⟨5054, "SupplementFlags", .int32⟩
def enhanceName : Tag .metadata := ⟨5055, "EnhanceName", .stringArray⟩
def enhanceVersion : Tag .metadata := ⟨5056, "EnhanceVersion", .stringArray⟩
def enhanceFlags : Tag .metadata := ⟨5057, "EnhanceFlags", .int32⟩
def encoding : Tag .metadata := ⟨5062, "Encoding", .string⟩
def payloadDigest : Tag .metadata := ⟨5092, "PayloadDigest", .stringArray⟩
def payloadDigestAlgo : Tag .metadata := ⟨5093, "PayloadDigestAlgo", .int32⟩
def payloadDigestAlt : Tag .metadata := ⟨5097, "PayloadDigestAlt", .stringArray⟩

def all : List (Tag .metadata) := [
  headerI18nTable, name, version, release, epoch, summary, description, buildTime, buildHost,
  size, distribution, vendor, license, packager, group, url, os, arch, prein, postin, preun,
  postun, fileSizes, fileModes, fileRdevs, fileMtimes, fileDigests, fileLinkTos, fileFlags,
  fileUserName, fileGroupName, sourceRpm, fileVerifyFlags, archiveSize, provideName, requireFlags,
  requireName, requireVersion, conflictFlags, conflictName, conflictVersion, rpmVersion,
  changelogTime, changelogName, changelogText, preinProg, postinProg, preunProg, postunProg,
  obsoleteName, cookie, fileDevices, fileInodes, fileLangs, prefixes, provideFlags,
  provideVersion, obsoleteFlags, obsoleteVersion, dirIndexes, baseNames, dirNames, optFlags,
  payloadFormat, payloadCompressor, payloadFlags, platform, longFileSizes, longSize,
  fileDigestAlgo, bugUrl, preinFlags, postinFlags, preunFlags, postunFlags, recommendName,
  recommendVersion, recommendFlags, suggestName, suggestVersion, suggestFlags, supplementName,
  supplementVersion, supplementFlags, enhanceName, enhanceVersion, enhanceFlags, encoding,
  payloadDigest, payloadDigestAlgo, payloadDigestAlt]

end MetadataTag

namespace Namespace

def tags : (ns : Namespace) → List (Tag ns)
  | signature => SignatureTag.all
  | metadata => MetadataTag.all

def tag? (ns : Namespace) (id : UInt32) : Option (Tag ns) := ns.tags.find? fun t => t.id = id

end Namespace

end Rpm
