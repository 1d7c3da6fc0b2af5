import DialARide.Proofs.Shift.Act
import DialARide.Proofs.Shift.Due
import DialARide.World.Setup

/-!
# The shift office

An office dispatches shifts, accepts every instruction that this leads to, and carries out what
is due. What is carried out is a sequence of reports, whether or not a fault is met on the way.
Before the first errand no vehicle has a shift and nothing is put down.
-/

namespace DialARide

namespace Dispatcher

variable {d d' d'' : Dispatcher} {now : Time}

/-- No report puts a vehicle under another name. -/
theorem Report.named (h : d.Report now d') (hd : d.Named) : d'.Named := by
  cases h <;> exact hd.amend _ _ _

/-- Reports of one time, one after the other. -/
inductive Reports (now : Time) : Dispatcher → Dispatcher → Prop
  | nil (d : Dispatcher) : Reports now d d
  | cons {d d₁ d₂ : Dispatcher} : d.Report now d₁ → Reports now d₁ d₂ → Reports now d d₂

theorem Report.reports (h : d.Report now d') : Reports now d d' := .cons h (.nil d')

/-- Reports may follow upon reports. -/
theorem Reports.append (h : Reports now d d') (h' : Reports now d' d'') : Reports now d d'' := by
  induction h with
  | nil => exact h'
  | cons hfirst _ ih => exact .cons hfirst (ih h')

/-- What every report keeps is kept by all of them. -/
theorem Reports.keeps {P : Dispatcher → Prop} (hP : ∀ d d', d.Report now d' → P d → P d')
    (h : Reports now d d') (hd : P d) : P d' := by
  induction h with
  | nil => exact hd
  | cons hfirst _ ih => exact ih (hP _ _ hfirst hd)

/-- What is heard from a vehicle is a report. -/
theorem report_of_hear {r : TaskReport} (hd : d.Named) (h : d.hear now r = .ok d') :
    d.Report now d' := by
  cases r with
  | breakStarts vehicle link => exact report_of_startBreak hd h
  | breakEnds vehicle task => exact report_of_endBreak hd h
  | shiftEnds vehicle link => exact report_of_endShift hd h

/-- What is taken before the first fault is a sequence of reports. -/
theorem reports_hearAll (hd : d.Named) (now : Time) (rs : List TaskReport) :
    Reports now d (d.hearAll now rs).1 := by
  induction rs generalizing d with
  | nil => exact .nil d
  | cons r rest ih =>
    unfold hearAll
    split
    · next d₁ h =>
      have hreport := report_of_hear hd h
      exact .cons hreport (ih (hreport.named hd))
    · exact .nil d

end Dispatcher

namespace TaskQueue

open Dispatcher (Reports reports_hearAll)

variable {d : Dispatcher}

/-- The breaks that are carried out are reported one after the other. -/
theorem reports_runBreaks (hd : d.Named) (now : Time) (bs : List PlannedBreak) :
    Reports now d (runBreaks now d bs).2.1 := by
  rw [runBreaks_eq]
  exact reports_hearAll hd now _

/-- Whatever is carried out is a sequence of reports. -/
theorem reports_executeDue (hd : d.Named) (q : TaskQueue) (now : Time) :
    Reports now d (q.executeDue d now).2.1 := by
  rw [executeDue_outcome]
  exact reports_hearAll hd now _

end TaskQueue

/-! ## Errands -/

/-- What an office is asked to do at a time. -/
inductive Errand where
  | dispatch (now : Time)
  | carryOut (now : Time)
  deriving DecidableEq, Repr

namespace ShiftOffice

/-- The office after an errand. All instructions of a dispatch are accepted. -/
def tend (o : ShiftOffice) : Errand → Except Halt ShiftOffice
  | .dispatch now => do
    let (dispatcher, instructions) ← o.dispatcher.dispatch now
    return { dispatcher, tasks := instructions.foldl TaskQueue.accept o.tasks }
  | .carryOut now =>
    let (tasks, dispatcher, _) := o.tasks.executeDue o.dispatcher now
    .ok { dispatcher, tasks }

/-- The office after several errands, one after the other. -/
def tendAll : ShiftOffice → List Errand → Except Halt ShiftOffice
  | o, [] => .ok o
  | o, errand :: rest => do (← o.tend errand).tendAll rest

/-- What every decision and every report keeps is kept by every errand. -/
theorem keeps_tend {P : Dispatcher → Prop} {o o' : ShiftOffice} {errand : Errand}
    (hdecision : ∀ now d d' i, d.Decision now d' i → P d → P d')
    (hreport : ∀ now d d', d.Report now d' → P d → P d') (hd : o.dispatcher.Named)
    (hP : P o.dispatcher) (h : o.tend errand = .ok o') :
    o'.dispatcher.Named ∧ P o'.dispatcher := by
  cases errand with
  | dispatch now =>
    cases hdispatch : o.dispatcher.dispatch now with
    | error halt => simp [tend, hdispatch, Bind.bind, Except.bind] at h
    | ok outcome =>
      simp only [tend, hdispatch, Bind.bind, Except.bind, Pure.pure, Except.pure,
        Except.ok.injEq] at h
      subst h
      have hall := Dispatcher.decisions_dispatch hd hdispatch
      exact ⟨hall.keeps (fun _ _ _ h => h.named) hd, hall.keeps (hdecision now) hP⟩
  | carryOut now =>
    cases h
    have hall := TaskQueue.reports_executeDue hd o.tasks now
    exact ⟨hall.keeps (fun _ _ h => h.named) hd, hall.keeps (hreport now) hP⟩

/-- What every decision and every report keeps is kept by all errands. -/
theorem keeps_tendAll {P : Dispatcher → Prop} {o o' : ShiftOffice} {errands : List Errand}
    (hdecision : ∀ now d d' i, d.Decision now d' i → P d → P d')
    (hreport : ∀ now d d', d.Report now d' → P d → P d') (hd : o.dispatcher.Named)
    (hP : P o.dispatcher) (h : o.tendAll errands = .ok o') : P o'.dispatcher := by
  induction errands generalizing o with
  | nil =>
    cases h
    exact hP
  | cons errand rest ih =>
    unfold tendAll at h
    cases hone : o.tend errand with
    | error halt => simp [hone, Bind.bind, Except.bind] at h
    | ok o₁ =>
      simp only [hone, Bind.bind, Except.bind] at h
      obtain ⟨hd₁, hP₁⟩ := keeps_tend hdecision hreport hd hP hone
      exact ih hd₁ hP₁ h

end ShiftOffice

/-! ## The dispatcher of a scenario -/

/-- No vehicle has a shift, the open shifts are as they were planned, and nothing is put down. -/
structure Dispatcher.Untouched (d : Dispatcher) (plans : List ShiftPlan) : Prop where
  sound : d.Sound
  idle : ∀ id v, d.vehicles.find? id = some v → v.shifts = []
  planned : ∀ s ∈ d.unassigned, s.toShiftPlan ∈ plans
  silent : d.events = []

/-- A vehicle that joins has no shift. -/
theorem Dispatcher.Untouched.addVehicle {d : Dispatcher} {plans : List ShiftPlan}
    (h : d.Untouched plans) (entry : VehicleEntry) : (d.addVehicle entry).Untouched plans := by
  refine ⟨(d.act_addVehicle entry).sound h.sound, fun id v hv => ?_, h.planned, h.silent⟩
  simp only [Dispatcher.addVehicle, Table.find?_insert] at hv
  split at hv
  · obtain rfl := Option.some.inj hv
    rfl
  · exact h.idle id v hv

/-- A shift that is added is open as it was planned. -/
theorem Dispatcher.Untouched.addShift {d : Dispatcher} {plans : List ShiftPlan}
    (h : d.Untouched plans) {plan : ShiftPlan} (hplan : plan ∈ plans) :
    (d.addShift plan).Untouched plans := by
  refine ⟨(Dispatcher.Act.offered plan).sound h.sound, h.idle, fun s hs => ?_, h.silent⟩
  rcases Dispatcher.mem_insertUnassigned.1 hs with rfl | hs
  · exact hplan
  · exact h.planned s hs

/-- Nothing has been done with the shifts of a scenario that is set up. -/
theorem Setup.untouched_dispatcher (s : Setup) (policy : ShiftPolicy) :
    (s.dispatcher policy).Untouched s.shifts := by
  have hfleet (vs : List VehicleEntry) (d : Dispatcher) (h : d.Untouched s.shifts) :
      (vs.foldl Dispatcher.addVehicle d).Untouched s.shifts := by
    induction vs generalizing d with
    | nil => exact h
    | cons entry rest ih => exact ih _ (h.addVehicle entry)
  have hshifts (plans : List ShiftPlan) (hsub : ∀ plan ∈ plans, plan ∈ s.shifts)
      (d : Dispatcher) (h : d.Untouched s.shifts) :
      (plans.foldl Dispatcher.addShift d).Untouched s.shifts := by
    induction plans generalizing d with
    | nil => exact h
    | cons plan rest ih =>
      exact ih (fun p hp => hsub p (List.mem_cons_of_mem plan hp)) _
        (h.addShift (hsub plan List.mem_cons_self))
  refine hshifts s.shifts (fun _ hp => hp) _ (hfleet s.vehicles _ ⟨⟨?_, ?_⟩, ?_, ?_, rfl⟩)
  · exact fun _ _ hv => (nomatch hv)
  · exact fun _ hs => (nomatch hs)
  · exact fun _ _ hv => (nomatch hv)
  · exact fun _ hs => (nomatch hs)

end DialARide
