import NetSettle.Bank.Rehearsal
import NetSettle.Main
import NetSettle.Proofs.Execution.Audit
import NetSettle.Proofs.Execution.Capacity
import NetSettle.Proofs.Execution.Confinement
import NetSettle.Proofs.Execution.DecodedFirst
import NetSettle.Proofs.Execution.Headroom
import NetSettle.Proofs.Execution.InPlace
import NetSettle.Proofs.Execution.Promises
import NetSettle.Proofs.Execution.Reachable
import NetSettle.Proofs.Execution.Reentry
import NetSettle.Proofs.Execution.Route
import NetSettle.Proofs.Execution.Solvency
import NetSettle.Proofs.Program.Grammar
import NetSettle.Proofs.Simulation.Invocations
import NetSettle.Proofs.Pool.SwapPrice
import NetSettle.Proofs.Pool.Deposit
import NetSettle.Proofs.Pool.Sides
import NetSettle.Proofs.Pool.Splitting
import NetSettle.Proofs.Pool.Exit
import NetSettle.Proofs.Pool.Liquidity
import NetSettle.Proofs.Execution.Settlements
import NetSettle.Proofs.Bank.Calls
import NetSettle.Proofs.Execution.Inflow
import NetSettle.Proofs.Pool.Atomicity
import NetSettle.Proofs.Program.Extension
import NetSettle.Proofs.Program.Field
import NetSettle.Proofs.Pool.PriceOrder
import NetSettle.Proofs.Pool.Symmetry
import NetSettle.Proofs.SquareRoot
import NetSettle.Proofs.Simulation.ProgramFile
