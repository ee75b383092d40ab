import SchemaPaths.Main
import SchemaPaths.Service.Form
import SchemaPaths.Service.Status
import SchemaPaths.Walk.Outline
import SchemaPaths.Proofs.Ensures
import SchemaPaths.Proofs.DepthFirst
import SchemaPaths.Proofs.Schema.Sets
import SchemaPaths.Proofs.Schema.Closed
import SchemaPaths.Proofs.Schema.Reading
import SchemaPaths.Proofs.Schema.Refusing
import SchemaPaths.Proofs.Schema.Tops
import SchemaPaths.Proofs.Schema.Listing
import SchemaPaths.Proofs.Linking.Faults
import SchemaPaths.Proofs.Linking.Progress
import SchemaPaths.Proofs.Linking.Groups
import SchemaPaths.Proofs.Linking.Uses
import SchemaPaths.Proofs.Linking.Simple
import SchemaPaths.Proofs.Linking.Complex
import SchemaPaths.Proofs.Linking.Elements
import SchemaPaths.Proofs.Linking.Whole
import SchemaPaths.Proofs.Linking.Circles
import SchemaPaths.Proofs.Loading.Stepping
import SchemaPaths.Proofs.Loading
import SchemaPaths.Proofs.Loading.Following
import SchemaPaths.Proofs.Loading.Adopting
import SchemaPaths.Proofs.Loading.Retrying
import SchemaPaths.Proofs.Walk.Walkable
import SchemaPaths.Proofs.Linking.Contents
import SchemaPaths.Proofs.Linking.References
import SchemaPaths.Proofs.Export.Steps
import SchemaPaths.Proofs.Export.Rows
import SchemaPaths.Proofs.Export.Visiting
import SchemaPaths.Proofs.Export.Skipping
import SchemaPaths.Proofs.Export.Chains
import SchemaPaths.Proofs.Graph.Searching
import SchemaPaths.Proofs.Graph.Ordering
import SchemaPaths.Proofs.Graph.Stepping
import SchemaPaths.Proofs.Graph.Collecting
import SchemaPaths.Proofs.Graph.Reaching
import SchemaPaths.Proofs.Graph.Tracing
import SchemaPaths.Proofs.Graph.Recording
import SchemaPaths.Proofs.Graph.Meaning
import SchemaPaths.Proofs.Graph.Cycling
import SchemaPaths.Proofs.Traversal
import SchemaPaths.Proofs.Agreement
import SchemaPaths.Proofs.Export.Columns
import SchemaPaths.Proofs.Markup.Scoped
import SchemaPaths.Proofs.Markup.Staying
import SchemaPaths.Proofs.Markup.Passing
import SchemaPaths.Proofs.Markup.Searching
import SchemaPaths.Proofs.Schema.Resolving
import SchemaPaths.Proofs.Export.Rearranging
import SchemaPaths.Proofs.Linking.Alike
import SchemaPaths.Proofs.Loading.Locations
import SchemaPaths.Proofs.Loading.Mirroring
import SchemaPaths.Proofs.Loading.Reordering
import SchemaPaths.Proofs.Export.Decoding
import SchemaPaths.Proofs.Export.ReadingBack
import SchemaPaths.Proofs.Ending
import SchemaPaths.Proofs.Schema.Defaulting
import SchemaPaths.Proofs.Linking.AttributeGroups
import SchemaPaths.Proofs.Linking.Effective
import SchemaPaths.Proofs.Linking.Typing
import SchemaPaths.Proofs.Command.Files
import SchemaPaths.Proofs.Command.Checking
import SchemaPaths.Proofs.Command.Leaving
import SchemaPaths.Proofs.Schema.Spelling
import SchemaPaths.Proofs.Loading.Failing
import SchemaPaths.Proofs.Export.Rooting
import SchemaPaths.Proofs.Graph.Deriving
import SchemaPaths.Proofs.Graph.Bodies
import SchemaPaths.Proofs.Export.Inlining
import SchemaPaths.Proofs.Graph.Recursion
import SchemaPaths.Proofs.Graph.Repetition
import SchemaPaths.Proofs.Graph.Roots
import SchemaPaths.Proofs.Linking.Relinking
import SchemaPaths.Proofs.Loading.Plain
import SchemaPaths.Proofs.Loading.Reloading
import SchemaPaths.Proofs.Export.Balance
import SchemaPaths.Proofs.Schema.Ignoring
import SchemaPaths.Proofs.Linking.Displacing
import SchemaPaths.Proofs.Markup.Giving
import SchemaPaths.Proofs.Schema.StartTags
import SchemaPaths.Proofs.Schema.Extras
import SchemaPaths.Proofs.Loading.Extras
import SchemaPaths.Proofs.Schema.Entries
import SchemaPaths.Proofs.Schema.Registering
