import Farmhand.Main
import Farmhand.Proofs.Table
import Farmhand.Proofs.World.Update
import Farmhand.Proofs.Engine.History
import Farmhand.Proofs.Engine.Moves
import Farmhand.Proofs.Engine.Quiet
import Farmhand.Proofs.Engine.Rest
import Farmhand.Proofs.Engine.Shown
import Farmhand.Proofs.Engine.Schedule
import Farmhand.Proofs.World.Transact
import Farmhand.Proofs.Production.Duty
import Farmhand.Proofs.Production.Firing
import Farmhand.Proofs.Production.Cycle
import Farmhand.Proofs.Production.Calls
import Farmhand.Proofs.Production.Conservation
import Farmhand.Proofs.Script.Code
import Farmhand.Proofs.Script.Quoting
import Farmhand.Proofs.Script.Indented
import Farmhand.Proofs.Script.Section
import Farmhand.Proofs.Script.Comments
import Farmhand.Proofs.Script.Skipping
import Farmhand.Proofs.Script.Roundtrip
import Farmhand.Proofs.Script.Recovery
import Farmhand.Proofs.Concurrent.Stopping
import Farmhand.Proofs.Concurrent.Isolation
import Farmhand.Proofs.Machine.Effect
import Farmhand.Proofs.Concurrent.Enduring
import Farmhand.Proofs.Concurrent.Busy
import Farmhand.Proofs.Concurrent.Scene
import Farmhand.Proofs.Interpreter.Checking
import Farmhand.Proofs.World.Layout
import Farmhand.Proofs.Production.Charges
import Farmhand.Proofs.Interpreter.Alone
import Farmhand.Proofs.Interpreter.Charging
import Farmhand.Proofs.Script.Origins
import Farmhand.Proofs.Machine.Telling
import Farmhand.Proofs.Concurrent.Tracing
import Farmhand.Proofs.Concurrent.Failing
import Farmhand.Proofs.Script.Grammar
import Farmhand.Proofs.Script.Faultless
import Farmhand.Proofs.Script.Layers
import Farmhand.Proofs.Script.Reported
import Farmhand.Proofs.Script.Assembled
import Farmhand.Proofs.Script.Precedence
import Farmhand.Proofs.Script.Listed
import Farmhand.Proofs.Script.Realigned
import Farmhand.Proofs.Concurrent.Fares
import Farmhand.Proofs.Concurrent.Paying
import Farmhand.Proofs.Concurrent.Unbroken
import Farmhand.Proofs.Production.Driven
import Farmhand.Proofs.Production.Undisturbed
import Farmhand.Proofs.Interpreter.Sealing
import Farmhand.Proofs.Production.Stale
import Farmhand.Proofs.Movement.Goals
import Farmhand.Proofs.Movement.Crossing
import Farmhand.Proofs.Interpreter.Sequence
import Farmhand.Proofs.Value.Order
import Farmhand.Proofs.Value.Comparison
import Farmhand.Proofs.Concurrent.Limited
import Farmhand.Proofs.Value.Progression
import Farmhand.Proofs.Value.Sequences
import Farmhand.Proofs.Script.Tiles
import Farmhand.Proofs.Script.Advancing
