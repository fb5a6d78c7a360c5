import LineShell.Main
import LineShell.Session
import LineShell.Text.Cluster
import LineShell.Proofs.Walk.Children
import LineShell.Proofs.Walk.Order
import LineShell.Proofs.Builtin
import LineShell.Proofs.Grammar.Asking
import LineShell.Proofs.Grammar.Items
import LineShell.Proofs.Grammar.Offence
import LineShell.Proofs.Grammar.Open
import LineShell.Proofs.Grammar.Pieces
import LineShell.Proofs.Grammar.Reading
import LineShell.Proofs.Grammar.Resumed
import LineShell.Proofs.Grammar.Segments
import LineShell.Proofs.Grammar.Tight
import LineShell.Proofs.Grammar.Written
import LineShell.Proofs.Launch.Account
import LineShell.Proofs.Launch.Attended
import LineShell.Proofs.Launch.Boundary
import LineShell.Proofs.Launch.Context
import LineShell.Proofs.Launch.Depth
import LineShell.Proofs.Launch.Outcome
import LineShell.Proofs.Launch.Topology
import LineShell.Proofs.Rehearsal.Channels
import LineShell.Proofs.Rehearsal.Halt
import LineShell.Proofs.Rehearsal.Visits
import LineShell.Proofs.Line.Assignment
import LineShell.Proofs.Line.Flat
import LineShell.Proofs.Line.Joined
import LineShell.Proofs.Launch.Exit
import LineShell.Proofs.Launch.Double
import LineShell.Proofs.Launch.Spare
import LineShell.Proofs.Launch.Leaf
import LineShell.Proofs.Parallel
import LineShell.Proofs.Pipeline
import LineShell.Proofs.Redirection.Budget
import LineShell.Proofs.Redirection.Scoped
import LineShell.Proofs.Redirection.Leaves
import LineShell.Proofs.Shell.Course
