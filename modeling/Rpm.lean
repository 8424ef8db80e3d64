import Rpm.Archive.Builder
import Rpm.Archive.Cursor
import Rpm.Dependency
import Rpm.Package.Builder
import Rpm.Package.Reader
import Rpm.Proofs.Package.RoundTrip
import Rpm.Proofs.Version.Equality
import Rpm.Text.Timestamp
import Rpm.Version
import Rpm.Proofs.Archive.Member
import Rpm.Proofs.Archive.RoundTrip
import Rpm.Proofs.Archive.Interleaving
import Rpm.Proofs.Archive.Rebuilding
import Rpm.Proofs.Archive.Truncation
import Rpm.Proofs.Header.Canonical
import Rpm.Proofs.Package.Build
import Rpm.Proofs.Package.Verification
import Rpm.Proofs.Payload.Accounting
import Rpm.Proofs.Payload.Calls
import Rpm.Proofs.Signature.Derivation
import Rpm.Proofs.Package.Acceptance
import Rpm.Proofs.Package.Reordering
import Rpm.Proofs.Package.Emission
import Rpm.Proofs.Archive.FailedAppends
import Rpm.Proofs.Header.Reachability
import Rpm.Proofs.Package.Flags
import Rpm.Proofs.Package.Modes
import Rpm.Proofs.Header.Arrangement
import Rpm.Proofs.Header.Rerendering
import Rpm.Proofs.Header.Streaming
import Rpm.Proofs.Header.History
import Rpm.Proofs.Version.Grammar
import Rpm.Proofs.Archive.Iteration
import Rpm.Proofs.Lead.Name
import Rpm.Proofs.Payload.FlagsLanguage
import Rpm.Proofs.Payload.PathSpelling
import Rpm.Proofs.Archive.Offset
import Rpm.Proofs.Archive.Spelling
