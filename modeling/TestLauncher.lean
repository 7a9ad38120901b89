import TestLauncher.Text.Blank
import TestLauncher.Text.Printable
import TestLauncher.Text.WordChar
import TestLauncher.Text.DecimalDigit
import TestLauncher.Text.Quoted
import TestLauncher.Text.Dotted
import TestLauncher.Collection.StringSet
import TestLauncher.Collection.OrderedMap
import TestLauncher.Fault
import TestLauncher.UniqueId
import TestLauncher.Selector
import TestLauncher.Parameters
import TestLauncher.Numeric.Notation
import TestLauncher.Pattern.Match
import TestLauncher.TestPlan
import TestLauncher.DiscoveryRequest
import TestLauncher.Forest.Growth
import TestLauncher.Listener.Standard
import TestLauncher.Engine.Catalogue
import TestLauncher.Engine.Scripted
import TestLauncher.Launcher
import TestLauncher.Suite.Marked
import TestLauncher.Assembly
import TestLauncher.Proofs.Grove
import TestLauncher.Proofs.UniqueId
import TestLauncher.Proofs.UniqueId.Reading
import TestLauncher.Proofs.Forest.Standing
import TestLauncher.Proofs.Forest.Subtree
import TestLauncher.Proofs.Forest.Thinning
import TestLauncher.Proofs.Forest.Relocation
import TestLauncher.Proofs.Forest.Mirror
import TestLauncher.Proofs.Forest.Links
import TestLauncher.Proofs.Forest.Rooted
import TestLauncher.Proofs.Forest.Rerooting
import TestLauncher.Proofs.Filter.Lineage
import TestLauncher.Proofs.Filter.Ancestry
import TestLauncher.Proofs.Boundary
import TestLauncher.Proofs.Plan.Index
import TestLauncher.Proofs.Plan.Faithful
import TestLauncher.Proofs.Plan.Tour
import TestLauncher.Proofs.Plan.Owners
import TestLauncher.Proofs.Discovery.Survey
import TestLauncher.Proofs.Discovery.Expansion
import TestLauncher.Proofs.Discovery.Requests
import TestLauncher.Proofs.Discovery.Survivors
import TestLauncher.Proofs.Discovery.Childless
import TestLauncher.Proofs.Discovery.Agreement
import TestLauncher.Proofs.Discovery.Progress
import TestLauncher.Proofs.Forest.Loosening
import TestLauncher.Proofs.Discovery.Turns
import TestLauncher.Proofs.Discovery.Account
import TestLauncher.Proofs.Forest.Spelling
import TestLauncher.Proofs.Discovery.Conforming
import TestLauncher.Proofs.Discovery.Planning
import TestLauncher.Proofs.Discovery.Placement
import TestLauncher.Proofs.Engine.Catalogue
import TestLauncher.Proofs.Forest.Likeness
import TestLauncher.Proofs.Forest.Lockstep
import TestLauncher.Proofs.Discovery.Isolation
import TestLauncher.Proofs.Engine.Rerooting
import TestLauncher.Proofs.Discovery.Rerooting
import TestLauncher.Proofs.Execution.Chronicle
import TestLauncher.Proofs.Execution.ListenerFaults
import TestLauncher.Proofs.Execution.Rounds
import TestLauncher.Proofs.Execution.Overhearing
import TestLauncher.Proofs.Execution.Sessions
import TestLauncher.Proofs.Execution.Brackets
import TestLauncher.Proofs.Execution.Tours
import TestLauncher.Proofs.Calls.Watched
import TestLauncher.Proofs.Calls.Excluded
import TestLauncher.Proofs.Unrecoverable
import TestLauncher.Proofs.Discovery.Listing
import TestLauncher.Proofs.Discovery.Narrowing
import TestLauncher.Proofs.Forest.PostOrder
import TestLauncher.Proofs.Forest.Cutting
import TestLauncher.Proofs.Forest.Culling
import TestLauncher.Proofs.Forest.Winnowing
import TestLauncher.Proofs.Discovery.Sifting
import TestLauncher.Proofs.Plan.Ancestors
import TestLauncher.Proofs.Listener.Tallies
import TestLauncher.Proofs.Filter.Opposition
import TestLauncher.Proofs.Discovery.Ancestries
import TestLauncher.Proofs.Discovery.Splitting
import TestLauncher.Proofs.Filter.Composition
import TestLauncher.Proofs.Forest.Cycles
import TestLauncher.Proofs.Filter.Sources
import TestLauncher.Proofs.Discovery.Suites
import TestLauncher.Proofs.Forest.Traversals
import TestLauncher.Proofs.Forest.Uprooting
import TestLauncher.Proofs.Suite.Marks
import TestLauncher.Proofs.Suite.Imports
import TestLauncher.Proofs.Suite.Lookups
import TestLauncher.Proofs.Suite.Expanding
import TestLauncher.Proofs.Suite.Paths
import TestLauncher.Proofs.Suite.LeadingParts
import TestLauncher.Proofs.Suite.Memory
import TestLauncher.Proofs.Listener.Deliveries
import TestLauncher.Proofs.Listener.Latest
import TestLauncher.Proofs.Filter.Equality
import TestLauncher.Proofs.Filter.Components
import TestLauncher.Proofs.UniqueId.Leading
import TestLauncher.Proofs.Plan.Descent
import TestLauncher.Proofs.Building
import TestLauncher.Proofs.Views
