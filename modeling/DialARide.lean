import DialARide.Name
import DialARide.Time
import DialARide.Table
import DialARide.Clock
import DialARide.Distance
import DialARide.Network
import DialARide.Plan
import DialARide.Fault
import DialARide.Config
import DialARide.Telemetry
import DialARide.Shift.State
import DialARide.Shift.Basic
import DialARide.Shift.Facility
import DialARide.Shift.Vehicle
import DialARide.Shift.Instruction
import DialARide.Shift.Dispatcher
import DialARide.Shift.Tasks
import DialARide.Ride.Request
import DialARide.Ride.Observation
import DialARide.Ride.Booking
import DialARide.Ride.Service
import DialARide.Ride.Services
import DialARide.World.Basic
import DialARide.World.Run
import DialARide.World.Setup
import DialARide.World.Demand
import DialARide.Json.Numeral
import DialARide.Json.Basic
import DialARide.Json.Token
import DialARide.Json.Token.Reader
import DialARide.Json.Reader
import DialARide.Json.Printer
import DialARide.Json.Record
import DialARide.Json.Config
import DialARide.Json.Network
import DialARide.Json.Plan
import DialARide.Json.Ride
import DialARide.Json.Shift
import DialARide.Proofs.Table
import DialARide.Proofs.Fault
import DialARide.Proofs.Ride.Naming
import DialARide.Proofs.Ride.Act
import DialARide.Proofs.Ride.Operation
import DialARide.Proofs.Ride.Upcoming
import DialARide.Proofs.Ride.Effect
import DialARide.Proofs.Ride.History
import DialARide.Proofs.Ride.Chronicle
import DialARide.Proofs.Ride.Overlap
import DialARide.Proofs.Ride.Course
import DialARide.Proofs.Ride.Standing
import DialARide.Proofs.Ride.Waiting
import DialARide.Proofs.Ride.Reading
import DialARide.Proofs.Ride.Parking
import DialARide.Proofs.Shift.Queue
import DialARide.Proofs.Shift.Slots
import DialARide.Proofs.Shift.Decision
import DialARide.Proofs.Shift.Act
import DialARide.Proofs.Shift.Effect
import DialARide.Proofs.Shift.Operation
import DialARide.Proofs.Shift.Attempt
import DialARide.Proofs.Shift.Window
import DialARide.Proofs.Shift.History
import DialARide.Proofs.Shift.Current
import DialARide.Proofs.Shift.Separation
import DialARide.Proofs.Shift.Conservation
import DialARide.Proofs.Shift.Selection
import DialARide.Proofs.Shift.Omission
import DialARide.Proofs.Shift.Settled
import DialARide.Proofs.Shift.Assignment
import DialARide.Proofs.Shift.Office
import DialARide.Proofs.Shift.EndSlot
import DialARide.Proofs.Shift.Replay
import DialARide.Proofs.Shift.Occupancy
import DialARide.Proofs.Shift.Duty
import DialARide.Proofs.Clock
import DialARide.Proofs.Clock.History
import DialARide.Proofs.World.Change
import DialARide.Proofs.World.Handled
import DialARide.Proofs.World.Reach
import DialARide.Proofs.World.Situation
import DialARide.Proofs.World.Wakeup
import DialARide.Proofs.World.Rota
import DialARide.Proofs.Telemetry
import DialARide.Proofs.World.Traces
import DialARide.Proofs.World.Unbound
import DialARide.Proofs.Shift.Tour
import DialARide.Proofs.Shift.Ledger
import DialARide.Proofs.Shift.Watch
import DialARide.Proofs.Ride.Submission
import DialARide.Proofs.World.Agenda
import DialARide.Proofs.World.Rhythm
import DialARide.Proofs.World.Sequence
import DialARide.Proofs.Ride.Reservation
import DialARide.Proofs.Ride.Interference
import DialARide.Proofs.World.Accounts
import DialARide.Proofs.Ride.Horizon
import DialARide.Proofs.World.Workload
import DialARide.Proofs.World.Ending
import DialARide.Proofs.World.Timetable
import DialARide.Proofs.World.Punctual
import DialARide.Proofs.World.Completion
import DialARide.Proofs.World.Demand
import DialARide.Proofs.Ride.Numbering
import DialARide.Proofs.World.Identity
import DialARide.Proofs.Json.Token
import DialARide.Proofs.Json.Text
import DialARide.Proofs.Json.Record
import DialARide.Proofs.Ride.Step
import DialARide.Proofs.Shift.Due
import DialARide.Proofs.Shift.Retry
import DialARide.Proofs.Shift.Timely
import DialARide.Proofs.Shift.Reserved
import DialARide.Proofs.Shift.Overflow
import DialARide.Proofs.Ride.Attempt
