import DialARide.Shift.Dispatcher

/-!
# Breaks and shift ends to be carried out

The instructions to take a break or to end a shift are queued and carried out when they are due,
breaks before ends and each kind in the order of acceptance. The first fault stops the work:
breaks are struck off the queue only when all of them went well, ends before they are carried
out.
-/

namespace DialARide

/-- A break that is to be carried out. -/
structure PlannedBreak where
  vehicle : VehicleId
  link : LinkId
  task : BreakTask
  /-- The vehicle has been told to start it. -/
  started : Bool := false
  deriving DecidableEq, Repr

/-- A shift end that is to be carried out. -/
structure PlannedEnd where
  vehicle : VehicleId
  link : LinkId
  time : Time
  deriving DecidableEq, Repr

/-- The breaks and shift ends to be carried out, each in the order of acceptance. -/
structure TaskQueue where
  breaks : List PlannedBreak := []
  ends : List PlannedEnd := []
  deriving DecidableEq, Repr

namespace TaskQueue

/-- Queues what an instruction asks to be done later. -/
def accept (q : TaskQueue) : Instruction → TaskQueue
  | .takeBreak vehicle _ link task => { q with breaks := q.breaks ++ [{ vehicle, link, task }] }
  | .endShift vehicle _ _ link time => { q with ends := q.ends ++ [{ vehicle, link, time }] }
  | .assigned .. | .started .. => q

/-- There is nothing left to be carried out. -/
def isEmpty (q : TaskQueue) : Bool := q.breaks.isEmpty && q.ends.isEmpty

/-- What has become of a break, whether it is done with, and the fault that it met. -/
structure BreakOutcome where
  planned : PlannedBreak
  finished : Bool
  dispatcher : Dispatcher
  fault : Option Fault

/-- Ends a break if it has started and its end is due. -/
def finishBreak (d : Dispatcher) (now : Time) (b : PlannedBreak) : BreakOutcome :=
  if b.started && b.task.finish ≤ now then
    match d.endBreak b.vehicle b.task now with
    | .ok d => ⟨b, true, d, none⟩
    | .error fault => ⟨b, false, d, some fault⟩
  else ⟨b, false, d, none⟩

/-- Carries out what is due of a break. -/
def runBreak (d : Dispatcher) (now : Time) (b : PlannedBreak) : BreakOutcome :=
  if !b.started && b.task.start ≤ now then
    match d.startBreak b.vehicle b.link now with
    | .ok d => finishBreak d now { b with started := true }
    | .error fault => ⟨b, false, d, some fault⟩
  else finishBreak d now b

/-- Carries out what is due of the given breaks, up to the first fault. Each break is given back
as it stands, with a mark if it is done with. -/
def runBreaks (now : Time) :
    Dispatcher → List PlannedBreak → List (PlannedBreak × Bool) × Dispatcher × Option Fault
  | d, [] => ([], d, none)
  | d, b :: rest =>
    let outcome := runBreak d now b
    match outcome.fault with
    | some fault =>
      ((outcome.planned, outcome.finished) :: rest.map (·, false), outcome.dispatcher, some fault)
    | none =>
      let (done, d, fault) := runBreaks now outcome.dispatcher rest
      ((outcome.planned, outcome.finished) :: done, d, fault)

/-- Carries out the given shift ends, up to the first fault. -/
def runEnds (now : Time) : Dispatcher → List PlannedEnd → Dispatcher × Option Fault
  | d, [] => (d, none)
  | d, e :: rest =>
    match d.endShift e.vehicle e.link now with
    | .ok d => runEnds now d rest
    | .error fault => (d, some fault)

/-- Carries out whatever is due, up to the first fault. -/
def executeDue (q : TaskQueue) (d : Dispatcher) (now : Time) :
    TaskQueue × Dispatcher × Option Fault :=
  match runBreaks now d q.breaks with
  | (marked, d, some fault) => ({ q with breaks := marked.map (·.1) }, d, some fault)
  | (marked, d, none) =>
    let breaks := (marked.filter fun m => !m.2).map (·.1)
    let (due, later) := q.ends.partition (·.time ≤ now)
    let (d, fault) := runEnds now d due
    ({ breaks, ends := later }, d, fault)

end TaskQueue

end DialARide
