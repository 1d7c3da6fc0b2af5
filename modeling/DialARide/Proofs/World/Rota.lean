import DialARide.Proofs.Shift.Duty
import DialARide.Proofs.World.Agenda

/-!
# Shifts in a scenario

The office of a scenario is at work only when shifts are dispatched: it then dispatches, accepts
all instructions and carries out what is due, and every other event leaves it as it is. Where the
break of every shift fits, no dispatch meets a fault, whatever else goes on in the scenario.
-/

namespace DialARide

namespace World

variable {w w' : World} {e : Event} {now : Time}

/-- All tasks of the office suit, and every break fits. -/
def OnDuty (w : World) : Prop :=
  ∀ office, w.shifts = some office → office.dispatcher.OnDuty office.tasks

/-- A dispatch meets no fault where all tasks suit and every break fits. -/
theorem OnDuty.dispatch (hw : w.OnDuty) (h : w.onShiftDispatch now = .ok w') :
    w'.OnDuty ∧ w'.fault = w.fault := by
  obtain ⟨office, dispatcher, instructions, tasks, d, fault, hoffice, hdispatch, hexecute, hshifts,
    hfault, -⟩ := onShiftDispatch_eq_ok h
  have hduty := hw office hoffice
  have haccepted := (Dispatcher.decisions_dispatch hduty.sound.named hdispatch).onDuty hduty
  have hdone := TaskQueue.onDuty_executeDue haccepted now
  rw [hexecute] at hdone
  obtain ⟨rfl, hleft⟩ := hdone
  refine ⟨fun office' hoffice' => ?_, by simpa using hfault⟩
  rw [hshifts, Option.some.injEq] at hoffice'
  subst hoffice'
  exact ⟨⟨hleft.sound.named, hleft.sound.fresh⟩, hleft.fits, hleft.duty, hleft.nobody⟩

theorem OnDuty.handle (hw : w.OnDuty) (h : w.handle e = .ok w') : w'.OnDuty := by
  by_cases hkind : e.kind = .shiftDispatch
  · simp only [World.handle, hkind] at h
    exact (hw.dispatch h).1
  · unfold OnDuty
    rw [((beat_handle h).schedules hkind).shifts]
    exact hw

/-- All tasks suit as long as events are taken and rejections are published. -/
theorem Onward.onDuty {allowed : Rejection → Prop} (h : w.Onward allowed w') (hw : w.OnDuty) :
    w'.OnDuty := by
  induction h with
  | here => exact hw
  | @event v v' e _ hnext ih =>
    obtain ⟨-, clock, -, hhandle⟩ := next?_eq_ok_some hnext
    have hduty : OnDuty { v with clock, current := some e } := ih
    exact hduty.handle hhandle
  | publish r _ _ ih => exact ih

end World

namespace Setup

/-- The office of a world that is set up has the dispatcher with the fleet and the shifts. -/
theorem shifts_build {s : Setup} {w : World} (h : s.build = .ok w) :
    w.shifts = s.config.shifts.map fun policy => { dispatcher := s.dispatcher policy } := by
  unfold build at h
  split at h
  · cases h
  · cases h
    rfl

/-- All tasks of a world that is set up suit, if every break fits: there are none. -/
theorem onDuty_build {s : Setup} {w : World} (h : s.build = .ok w)
    (hfits : ∀ plan ∈ s.shifts, plan.BreakFits) : w.OnDuty := by
  intro office hoffice
  rw [shifts_build h, Option.map_eq_some_iff] at hoffice
  obtain ⟨policy, -, rfl⟩ := hoffice
  exact (s.untouched_dispatcher policy).onDuty hfits

theorem Reaches.onDuty {s : Setup} {allowed : Rejection → Prop} {provisions : List Provision}
    {w : World} (h : s.Reaches allowed provisions w)
    (hfits : ∀ plan ∈ s.shifts, plan.BreakFits) : w.OnDuty := by
  obtain ⟨-, built, ready, started, hbuilt, hready, hstarted, honward⟩ := h
  have hduty := onDuty_build hbuilt hfits
  have hfilled : ready.shifts = built.shifts := (World.quiet_provideAll hready).shifts
  obtain ⟨clock, -, rfl⟩ := World.schedule_eq_ok hstarted
  apply honward.onDuty
  intro office hoffice
  exact hduty office (hfilled ▸ hoffice)

/-- If a dispatch of shifts meets a fault, there is a shift with a break that does not fit: it
cannot be over by the end of its window, or the window does not end with the shift at the
latest. -/
theorem Reaches.misfit_of_dispatch_fault {s : Setup} {allowed : Rejection → Prop}
    {provisions : List Provision} {v w : World} {e : Event} (h : s.Reaches allowed provisions v)
    (hnext : v.next? = .ok (some (e, w))) (hkind : e.kind = .shiftDispatch)
    (hfault : w.fault ≠ none) :
    ∃ plan ∈ s.shifts, ∃ window ∈ plan.breakWindow,
      window.latestEnd.toNat < window.earliestStart.toNat + window.duration.toNat ∨
        plan.finish < window.latestEnd := by
  by_contra hnone
  have hfits : ∀ plan ∈ s.shifts, plan.BreakFits := by
    intro plan hplan window hwindow
    by_contra hmisfit
    refine hnone ⟨plan, hplan, window, hwindow, ?_⟩
    rw [not_and_or, Nat.not_le, UInt64.not_le] at hmisfit
    exact hmisfit
  obtain ⟨hbefore, clock, -, hhandle⟩ := World.next?_eq_ok_some hnext
  simp only [World.handle, hkind] at hhandle
  have hduty : World.OnDuty { v with clock, current := some e } := h.onDuty hfits
  exact hfault ((hduty.dispatch hhandle).2.trans hbefore)

/-- A shift whose end is planned before its break, which is to last beyond the shift. -/
def lateBreak : Setup where
  config := { Config.standard with shifts := some { dispatchInterval := 300 } }
  network := .ofLinks [{ id := ⟨"yard"⟩, source := ⟨0, 0⟩, target := ⟨0, 10⟩ }]
  facilities := [⟨⟨"hub"⟩, .hub, ⟨"yard"⟩, ⟨0, 5⟩, 2⟩]
  vehicles := [{ id := ⟨"bus"⟩, link := ⟨"yard"⟩ }]
  shifts := [{ id := ⟨"day"⟩, start := 0, finish := 1200, breakWindow := some ⟨900, 3000, 600⟩ }]

/-- The end of the shift falls due while the driver is on break. -/
theorem late_break_faults : ∃ v e w, lateBreak.play [] 6 = some v ∧
    v.next? = .ok (some (e, w)) ∧ w.fault = some (.illegalTransition ⟨"day"⟩ .onBreak .ended) ∧
    ∃ plan ∈ lateBreak.shifts, ∃ window ∈ plan.breakWindow,
      window.latestEnd.toNat < window.earliestStart.toNat + window.duration.toNat ∨
        plan.finish < window.latestEnd := by
  have hplay : ((lateBreak.play [] 6).bind fun v => v.next?.toOption.bind fun next =>
      next.bind fun (e, w) => if e.kind = .shiftDispatch ∧
        w.fault = some (.illegalTransition ⟨"day"⟩ .onBreak .ended) then some () else none) =
      some () := by
    decide +kernel
  obtain ⟨v, hv, hrest⟩ := Option.bind_eq_some_iff.1 hplay
  cases hnext : v.next? with
  | error halt => simp [hnext, Except.toOption] at hrest
  | ok next =>
    simp only [hnext, Except.toOption, Option.bind_some] at hrest
    obtain ⟨⟨e, w⟩, rfl, hif⟩ := Option.bind_eq_some_iff.1 hrest
    split at hif
    · next hdispatch =>
      have hreaches : lateBreak.Reaches (fun _ => True) [] v :=
        reaches_of_play (by simp) hv
      have hfault : w.fault = some (.illegalTransition ⟨"day"⟩ .onBreak .ended) := hdispatch.2
      exact ⟨v, e, w, hv, hnext, hfault,
        Reaches.misfit_of_dispatch_fault hreaches hnext hdispatch.1 (by simp [hfault])⟩
    · cases hif

end Setup

end DialARide
