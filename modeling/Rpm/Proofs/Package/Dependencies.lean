import Rpm.Proofs.Package.Build

/-!
The dependencies of a built package.

A package depends on what was added, on what its form and its scripts call for, and provides itself.
All of that is merged into one list for each kind, from which the arrays of the header are made; the
arrays of one kind have nothing to do with those of another.
-/

namespace Rpm

open Header

/-! ### The arrays in a built header -/

variable {kind : DependencyKind} {h h' : Header .metadata}

variable {b : PackageBuilder} {evr : Version} {buildTime : UInt32} {files : List FileRecord}

namespace PackageBuilder

lemma mem_addedDependencies {d : Dependency} :
    d ∈ b.addedDependencies kind ↔ (kind, d) ∈ b.dependencies := by
  simp [addedDependencies]

end PackageBuilder

end Rpm
