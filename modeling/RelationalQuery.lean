import RelationalQuery.Fragment.Basic
import RelationalQuery.Row.Projection
import RelationalQuery.Row.View
import RelationalQuery.Select.Count
import RelationalQuery.Select.Rendering
import RelationalQuery.Select.Width
import RelationalQuery.Value.Conversion
import RelationalQuery.Proofs.Aliasing.Descriptions
import RelationalQuery.Proofs.Building.Bracketing
import RelationalQuery.Proofs.Building.Separation
import RelationalQuery.Proofs.Execution.CountCompiled
import RelationalQuery.Proofs.Failure.Detached
import RelationalQuery.Proofs.Failure.Mappings
import RelationalQuery.Proofs.Naming.Stability
import RelationalQuery.Proofs.Reading.Grammatical
import RelationalQuery.Proofs.Reading.Grouping
import RelationalQuery.Proofs.Reading.Negation
import RelationalQuery.Proofs.Renaming.Independence
import RelationalQuery.Proofs.Row.Views
import RelationalQuery.Proofs.Statement.Columns
import RelationalQuery.Proofs.Statement.Correlation
import RelationalQuery.Proofs.Statement.DistinctNames
import RelationalQuery.Proofs.Statement.Handles
import RelationalQuery.Proofs.Statement.Wiring
import RelationalQuery.Proofs.Text.Fidelity
import RelationalQuery.Proofs.Text.Merging
import RelationalQuery.Proofs.Value.Reals
import RelationalQuery.Proofs.Row.Binding
import RelationalQuery.Proofs.Text.Prefixes
import RelationalQuery.Proofs.Text.Literals
import RelationalQuery.Proofs.Text.Rebinding
import RelationalQuery.Proofs.Value.Paths
