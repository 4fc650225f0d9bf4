import Quantity.Main
import Quantity.Proofs.Catalog.Json
import Quantity.Proofs.Declaration.Extents
import Quantity.Proofs.Declaration.Nesting
import Quantity.Proofs.Declaration.Printed
import Quantity.Proofs.Dimension.Exact
import Quantity.Proofs.Expr.GeneratedCode
import Quantity.Proofs.Expr.Parentheses
import Quantity.Proofs.Loader.RoundTrip
import Quantity.Proofs.Loader.Transfer
import Quantity.Proofs.Model.Distinct
import Quantity.Proofs.Model.Numbers
import Quantity.Proofs.Model.Reversed
import Quantity.Proofs.Model.ScaleFamilies
import Quantity.Proofs.Model.SharedFamilies
import Quantity.Proofs.Model.StandIns
import Quantity.Proofs.Number.Literal
import Quantity.Proofs.Source.FreeFunctions
import Quantity.Proofs.Source.Comments
import Quantity.Proofs.Source.ScaleConversions
