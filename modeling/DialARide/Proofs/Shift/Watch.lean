import DialARide.Proofs.Shift.Ledger
import DialARide.Proofs.Shift.Replay

/-!
# An office under watch

An office is watched while it does its errands: each task keeps the shift that it was asked for,
and each report by which a task is carried out is kept with the shift that it met. Shift ends meet
the shifts that they were asked for. A break meets another exactly if its own shift has ended
before, which does not happen where every break fits.
-/

namespace DialARide

/-- An office with the tour of each of its tasks and all that was carried out. -/
structure Watch where
  dispatcher : Dispatcher
  ledger : Ledger := {}
  deeds : List Deed := []

namespace Watch

/-- The office that is watched. -/
def office (w : Watch) : ShiftOffice := { dispatcher := w.dispatcher, tasks := w.ledger.tasks }

/-- The office under watch after an errand. -/
def tend (w : Watch) : Errand → Except Halt Watch
  | .dispatch now => do
    let (dispatcher, instructions) ← w.dispatcher.dispatch now
    return { w with
      dispatcher, ledger := instructions.foldl (Ledger.accept dispatcher.endedBy) w.ledger }
  | .carryOut now =>
    let (ledger, deeds) := w.ledger.carryOut w.dispatcher now
    .ok { dispatcher := (w.ledger.tasks.executeDue w.dispatcher now).2.1, ledger,
          deeds := w.deeds ++ deeds }

/-- The office under watch after several errands, one after the other. -/
def tendAll : Watch → List Errand → Except Halt Watch
  | w, [] => .ok w
  | w, errand :: rest => do (← w.tend errand).tendAll rest

end Watch

/-! ## Watching changes nothing -/

namespace Watch

/-- An office does under watch what it does without. -/
theorem map_office_tend (w : Watch) (errand : Errand) :
    (w.tend errand).map office = w.office.tend errand := by
  cases errand with
  | dispatch now =>
    cases hdispatch : w.dispatcher.dispatch now with
    | error halt =>
      simp [tend, ShiftOffice.tend, office, hdispatch, Bind.bind, Except.bind, Except.map]
    | ok outcome =>
      simp [tend, ShiftOffice.tend, office, hdispatch, Bind.bind, Except.bind, Pure.pure,
        Except.pure, Except.map, Ledger.tasks_foldl_accept]
  | carryOut now => simp [tend, ShiftOffice.tend, office, Except.map, Ledger.tasks_carryOut]

/-- The office that is watched does what it does without the watch. -/
theorem map_office_tendAll (w : Watch) (errands : List Errand) :
    (w.tendAll errands).map office = w.office.tendAll errands := by
  induction errands generalizing w with
  | nil => rfl
  | cons errand rest ih =>
    have hone := w.map_office_tend errand
    unfold tendAll ShiftOffice.tendAll
    rw [← hone]
    cases w.tend errand with
    | error halt => rfl
    | ok w₁ => exact ih w₁

end Watch

/-! ## What is seen -/

/-- This is reported by a vehicle. -/
def ShiftEventKind.isReported : ShiftEventKind → Bool
  | .breakStarted | .breakEnded | .ended => true
  | _ => false

/-- What an instruction is about is decided and not reported. -/
theorem Instruction.not_reported (i : Instruction) (now : Time) :
    (i.event now).kind.isReported = false := by
  cases i <;> rfl

namespace Dispatcher

variable {d d' : Dispatcher} {now : Time}

/-- What a report puts down is reported by a vehicle. -/
theorem Report.reported (h : d.Report now d') :
    ∃ e : ShiftEvent, d'.events = d.events ++ [e] ∧ e.kind.isReported := by
  cases h <;> exact ⟨_, rfl, rfl⟩

/-- What reports put down is reported by vehicles. -/
theorem Reports.reported (h : Reports now d d') :
    ∃ es, d'.events = d.events ++ es ∧ ∀ e ∈ es, e.kind.isReported := by
  induction h with
  | nil => exact ⟨[], by simp, by simp⟩
  | cons hfirst _ ih =>
    obtain ⟨e, he, hkind⟩ := hfirst.reported
    obtain ⟨es, hevents, hes⟩ := ih
    exact ⟨e :: es, by simp [hevents, he], by simpa [hkind] using hes⟩

/-- Nothing that a dispatch puts down is reported by a vehicle. -/
theorem Decisions.filter_reported {out : List Instruction} (h : Decisions now d d' out) :
    d'.events.filter (·.kind.isReported) = d.events.filter (·.kind.isReported) := by
  have hnone : (out.map (Instruction.event now)).filter (·.kind.isReported) = [] := by
    simp [List.filter_eq_nil_iff, Instruction.not_reported]
  rw [h.events_eq, List.filter_append, hnone, List.append_nil]

/-- Decisions keep a dispatcher sound. -/
theorem Decisions.sound {out : List Instruction} (h : Decisions now d d' out) (hd : d.Sound) :
    d'.Sound :=
  h.keeps (fun _ _ _ hdecision => (Act.decided hdecision).sound) hd

/-- Reports keep a dispatcher sound. -/
theorem Reports.sound (h : Reports now d d') (hd : d.Sound) : d'.Sound :=
  h.keeps (fun _ _ hreport => (Act.reported hreport).sound) hd

end Dispatcher

namespace Watch

variable {w w' : Watch} {errand : Errand} {errands : List Errand}

/-- An errand is a dispatch of which every instruction is accepted, or it carries out what is
due. -/
theorem tend_eq_ok (h : w.tend errand = .ok w') :
    (∃ now d out, w.dispatcher.dispatch now = .ok (d, out) ∧
      w' = { w with dispatcher := d, ledger := out.foldl (Ledger.accept d.endedBy) w.ledger }) ∨
    ∃ now, w' =
      { dispatcher := (w.ledger.tasks.executeDue w.dispatcher now).2.1
        ledger := (w.ledger.carryOut w.dispatcher now).1
        deeds := w.deeds ++ (w.ledger.carryOut w.dispatcher now).2 } := by
  cases errand with
  | dispatch now =>
    cases hdispatch : w.dispatcher.dispatch now with
    | error halt => simp [tend, hdispatch, Bind.bind, Except.bind] at h
    | ok outcome =>
      simp only [tend, hdispatch, Bind.bind, Except.bind, Pure.pure, Except.pure,
        Except.ok.injEq] at h
      exact .inl ⟨now, outcome.1, outcome.2, hdispatch, h.symm⟩
  | carryOut now =>
    simp only [tend, Except.ok.injEq] at h
    exact .inr ⟨now, h.symm⟩

/-- What every errand keeps is kept by all of them. -/
theorem keeps_tendAll {P : Watch → Prop} (hP : ∀ w w' errand, w.tend errand = .ok w' → P w → P w')
    (hw : P w) (h : w.tendAll errands = .ok w') : P w' := by
  induction errands generalizing w with
  | nil =>
    cases h
    exact hw
  | cons errand rest ih =>
    unfold tendAll at h
    cases hone : w.tend errand with
    | error halt => simp [hone, Bind.bind, Except.bind] at h
    | ok w₁ =>
      simp only [hone, Bind.bind, Except.bind] at h
      exact ih (hP _ _ _ hone hw) h

/-- What a watch shows is true of the office: its ledger is, its deeds are all the reports that
were put down, and each of them met the shift that it was asked for or is a break of a shift that
had ended before. -/
structure Faithful (w : Watch) : Prop where
  sound : w.dispatcher.Sound
  follows : w.ledger.Follows w.dispatcher
  fair : ∀ x ∈ w.deeds, x.Fair
  noted : w.deeds.map Deed.note =
    (w.dispatcher.events.filter (·.kind.isReported)).map ShiftEvent.note

/-- A faithful watch is faithful after every errand. -/
theorem Faithful.tend (hw : w.Faithful) (h : w.tend errand = .ok w') : w'.Faithful := by
  rcases tend_eq_ok h with ⟨now, d, out, hdispatch, rfl⟩ | ⟨now, rfl⟩
  · have hall := Dispatcher.decisions_dispatch hw.sound.named hdispatch
    refine ⟨hall.sound hw.sound, hall.follows hw.sound hw.follows, hw.fair, ?_⟩
    rw [hall.filter_reported]
    exact hw.noted
  · have hall := TaskQueue.reports_executeDue hw.sound.named w.ledger.tasks now
    refine ⟨hall.sound hw.sound, hw.follows.carriedOut hw.sound.named now, fun x hx => ?_, ?_⟩
    · rcases List.mem_append.1 hx with hx | hx
      · exact hw.fair x hx
      · exact (hw.follows.fair_carryOut hw.sound.named hx).1
    · obtain ⟨es, hevents, hnote⟩ := Ledger.note_carryOut hw.sound.named w.ledger now
      obtain ⟨es', hevents', hreported⟩ := hall.reported
      obtain rfl : es = es' := List.append_cancel_left (hevents.symm.trans hevents')
      rw [List.map_append, hw.noted, hnote, hevents, List.filter_append, List.map_append,
        List.filter_eq_self.2 hreported]

/-- Every break of the ledger is one of the current shift of its vehicle, and every deed met the
shift that it was asked for. -/
structure Exact (w : Watch) : Prop where
  onDuty : w.dispatcher.OnDuty w.ledger.tasks
  current : ∀ p ∈ w.ledger.breaks, p.1.number = w.dispatcher.endedBy p.1.vehicle
  met : ∀ x ∈ w.deeds, x.met = x.asked

/-- No errand makes a watch miss the shift that a task was planned for. The vehicle of a break that
is left is still at work on the same shift. -/
theorem Exact.tend (hw : w.Exact) (hfaithful : w.Faithful) (h : w.tend errand = .ok w') :
    w'.Exact := by
  have hnamed := hfaithful.sound.named
  have hfaithful' := hfaithful.tend h
  rcases tend_eq_ok h with ⟨now, d, out, hdispatch, rfl⟩ | ⟨now, rfl⟩
  · have hall := Dispatcher.decisions_dispatch hnamed hdispatch
    refine ⟨?_, fun p hp => ?_, hw.met⟩
    · rw [Ledger.tasks_foldl_accept]
      exact hall.onDuty hw.onDuty
    · rcases Ledger.number_of_accepted hp with hp | hnumber
      · exact (hw.current p hp).trans (congrFun hall.endedBy_eq.symm p.1.vehicle)
      · exact hnumber
  · have hall := TaskQueue.reports_executeDue hnamed w.ledger.tasks now
    have hduty : (w.ledger.tasks.executeDue w.dispatcher now).2.1.OnDuty
        (w.ledger.carryOut w.dispatcher now).1.tasks :=
      w.ledger.tasks_carryOut w.dispatcher now ▸ (TaskQueue.onDuty_executeDue hw.onDuty now).2
    refine ⟨hduty, fun p hp => ?_, fun x hx => ?_⟩
    · have hvehicle := (hfaithful'.follows.breaks p hp).1
      have hdriving := hduty.driving (List.mem_map_of_mem hp)
      obtain ⟨q, hq, htour⟩ := Ledger.tour_of_carryOut hp
      have hbefore := hw.current q hq
      rw [← htour] at hbefore
      exact hbefore.trans (hall.endedBy_eq_of_driving (hvehicle ▸ hdriving)).symm
    · rcases List.mem_append.1 hx with hx | hx
      · exact hw.met x hx
      · obtain ⟨⟨-, hfair⟩, hmet | ⟨p, hp, hasked, hnumber⟩⟩ :=
          hfaithful.follows.fair_carryOut hnamed hx
        · exact hmet
        · refine hfair.resolve_right fun ⟨_, hover⟩ => ?_
          rw [hasked, hnumber, hw.current p hp] at hover
          exact Nat.lt_irrefl _ hover

end Watch

namespace Setup

/-- Whatever errands an office has done, and in whatever order, each report by which a task was
carried out concerns the shift that the task was asked for, unless that shift had ended before:
then it concerns a later one. Shift ends never go astray, and breaks do not where every break fits
into its window and every window into its shift. -/
theorem tasks_meet_their_shifts {s : Setup} {policy : ShiftPolicy} {errands : List Errand}
    {o : ShiftOffice}
    (h : ShiftOffice.tendAll { dispatcher := s.dispatcher policy } errands = .ok o) :
    ∃ w, Watch.tendAll { dispatcher := s.dispatcher policy } errands = .ok w ∧ w.office = o ∧
      w.deeds.map Deed.note =
        (o.dispatcher.events.filter (·.kind.isReported)).map ShiftEvent.note ∧
      (∀ x ∈ w.deeds, x.met.vehicle = x.asked.vehicle ∧
        (x.met ≠ x.asked ↔ x.asked.number < x.met.number) ∧
        (x.kind = .ended → x.met = x.asked)) ∧
      ((∀ plan ∈ s.shifts, plan.BreakFits) → ∀ x ∈ w.deeds, x.met = x.asked) := by
  have huntouched := s.untouched_dispatcher policy
  have herase := Watch.map_office_tendAll { dispatcher := s.dispatcher policy } errands
  cases hwatch : Watch.tendAll { dispatcher := s.dispatcher policy } errands with
  | error halt =>
    rw [hwatch] at herase
    cases herase.trans h
  | ok w =>
    rw [hwatch] at herase
    have hoffice : w.office = o := Except.ok.inj (herase.trans h)
    have hstart : Watch.Faithful { dispatcher := s.dispatcher policy } := by
      refine ⟨huntouched.sound, ⟨?_, ?_, .nil⟩, ?_, ?_⟩ <;> simp [huntouched.silent]
    have hfaithful := Watch.keeps_tendAll (fun _ _ _ h hw => Watch.Faithful.tend hw h) hstart hwatch
    refine ⟨w, rfl, hoffice, hoffice ▸ hfaithful.noted, fun x hx => ?_, fun hfits => ?_⟩
    · obtain ⟨hvehicle, hfair⟩ := hfaithful.fair x hx
      refine ⟨hvehicle, ⟨fun hne => (hfair.resolve_left hne).2, fun hlt heq => ?_⟩, fun hend => ?_⟩
      · rw [heq] at hlt
        exact Nat.lt_irrefl _ hlt
      · exact hfair.resolve_right fun hover => hover.1 hend
    · have hexact : Watch.Exact { dispatcher := s.dispatcher policy } :=
        ⟨huntouched.onDuty hfits, by simp, by simp⟩
      have hboth := Watch.keeps_tendAll (P := fun w => w.Faithful ∧ w.Exact)
        (fun _ _ _ h hw => ⟨hw.1.tend h, hw.2.tend hw.1 h⟩) ⟨hstart, hexact⟩ hwatch
      exact hboth.2.met

/-- A bus whose break is planned for a time at which it drives its second shift. -/
def straggler : Setup where
  config := .standard
  network := .ofLinks [{ id := ⟨"yard"⟩, source := ⟨0, 0⟩, target := ⟨0, 10⟩ }]
  facilities := [⟨⟨"hub"⟩, .hub, ⟨"yard"⟩, ⟨0, 5⟩, 2⟩]
  vehicles := [{ id := ⟨"bus"⟩, link := ⟨"yard"⟩ }]
  shifts := [
    { id := ⟨"first"⟩, start := 0, finish := 1200, breakWindow := some ⟨2400, 6000, 600⟩ },
    { id := ⟨"second"⟩, start := 1200, finish := 7200 }]

/-- The break of the first shift is given up with it and starts on the second. -/
theorem break_starts_on_next_shift :
    let policy : ShiftPolicy := { dispatchInterval := 600, changeover := 0, breakLookAhead := 1800 }
    let errands : List Errand := [.dispatch 0, .carryOut 0, .dispatch 600, .carryOut 600,
      .dispatch 1200, .carryOut 1200, .dispatch 1800, .carryOut 1800, .dispatch 2400,
      .carryOut 2400]
    ∃ o w x, ShiftOffice.tendAll { dispatcher := straggler.dispatcher policy } errands = .ok o ∧
      Watch.tendAll { dispatcher := straggler.dispatcher policy } errands = .ok w ∧
      w.office = o ∧ x ∈ w.deeds ∧ x.kind = .breakStarted ∧ x.asked.shift = ⟨"first"⟩ ∧
      x.met.shift = ⟨"second"⟩ ∧ x.asked.number < x.met.number := by
  intro policy errands
  let astray : Deed := ⟨.breakStarted, ⟨⟨"bus"⟩, ⟨"first"⟩, 0⟩, ⟨⟨"bus"⟩, ⟨"second"⟩, 1⟩⟩
  have hastray : (Watch.tendAll { dispatcher := straggler.dispatcher policy } errands).toOption.bind
      (fun w => if astray ∈ w.deeds then some () else none) = some () := by
    decide +kernel
  have herase := Watch.map_office_tendAll { dispatcher := straggler.dispatcher policy } errands
  cases hwatch : Watch.tendAll { dispatcher := straggler.dispatcher policy } errands with
  | error halt => simp [hwatch, Except.toOption] at hastray
  | ok w =>
    rw [hwatch] at herase
    obtain ⟨w', hwatch', hoffice, -, hmet, -⟩ := tasks_meet_their_shifts herase.symm
    obtain rfl : w = w' := Except.ok.inj (hwatch.symm.trans hwatch')
    simp only [hwatch, Except.toOption, Option.bind_some] at hastray
    split at hastray
    · next hmem =>
      have hlater := (hmet astray hmem).2.1.1 (by decide)
      exact ⟨w.office, w, astray, herase.symm, rfl, hoffice, hmem, rfl, rfl, rfl, hlater⟩
    · cases hastray

end Setup

end DialARide
