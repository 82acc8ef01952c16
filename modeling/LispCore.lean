import LispCore.Settings.State
import LispCore.Interpreter
import LispCore.Eval.Machine
import LispCore.Store.Equality
import LispCore.Store.Frames
import LispCore.Store.Lists
import LispCore.Decimal.Reader
import LispCore.Datum.Printer
import LispCore.Failure
import LispCore.Proofs.Agreement
import LispCore.Proofs.Simulation
import LispCore.Proofs.Bounds
import LispCore.Proofs.TailCalls
import LispCore.Proofs.Standard
import LispCore.Proofs.Changes
import LispCore.Proofs.Objects
import LispCore.Proofs.Locality
import LispCore.Proofs.Unshown
import LispCore.Proofs.WellFormed
import LispCore.Proofs.Host
import LispCore.Proofs.Failures
import LispCore.Proofs.Complaints
import LispCore.Proofs.Code
import LispCore.Proofs.Application
import LispCore.Proofs.Programs
import LispCore.Proofs.Catching
import LispCore.Proofs.Limits
import LispCore.Proofs.Chains
import LispCore.Proofs.Names
import LispCore.Proofs.Courses
import LispCore.Proofs.Growth
import LispCore.Proofs.Sparing
import LispCore.Proofs.Globals
import LispCore.Proofs.Operands
import LispCore.Proofs.Shapes
import LispCore.Proofs.Calls
import LispCore.Proofs.Trees
import LispCore.Proofs.Printing
import LispCore.Proofs.Equality
import LispCore.Proofs.Loops
import LispCore.Proofs.Counters
import LispCore.Proofs.Registration
import LispCore.Proofs.Walkers
import LispCore.Proofs.Reports
