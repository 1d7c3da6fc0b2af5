import DialARide.Proofs.World.Punctual

/-!
# Timetables are completed

A scenario that is filled with the outings of a timetable, and with nothing else, starts with every
outing ahead and everything in place. It keeps to the timetable from then on, so that in the end all
travelers are where they wanted to be.
-/

namespace DialARide

/-- What a scenario is filled with for outings that are numbered from a number on. -/
def provisionsFrom (mode : ModeId) : Nat → List Outing → List Provision
  | _, [] => []
  | n, o :: rest => o.provisions mode n ++ provisionsFrom mode (n + 1) rest

/-- An outing takes a departure, which weighs twice, and two stops. -/
theorem load_provisionsFrom (mode : ModeId) (n : Nat) (outings : List Outing) :
    ((provisionsFrom mode n outings).map (·.load)).sum = 4 * outings.length := by
  induction outings generalizing n with
  | nil => rfl
  | cons o rest ih =>
    rw [provisionsFrom, List.map_append, List.sum_append, ih, List.length_cons]
    show 4 + _ = _
    omega

/-- Nothing is due after the last vehicle has arrived. -/
theorem horizon_provisionsFrom (mode : ModeId) {latest : Nat} {outings : List Outing}
    (htimely : ∀ o ∈ outings, o.departure ≤ o.pickupAt ∧ o.pickupAt ≤ o.dropoffAt)
    (hlatest : ∀ o ∈ outings, o.dropoffAt.toNat ≤ latest) (n : Nat) :
    (horizon (provisionsFrom mode n outings)).toNat ≤ latest := by
  refine horizon_le ?_
  induction outings generalizing n with
  | nil => simp [provisionsFrom]
  | cons o rest ih =>
    intro p hp time htime
    rcases List.mem_append.1 hp with hfirst | hrest
    · obtain ⟨hdeparture, hpickup⟩ := htimely o List.mem_cons_self
      have hdropoff := hlatest o List.mem_cons_self
      rw [UInt64.le_iff_toNat_le] at hdeparture hpickup
      have hcases : time = o.departure ∨ time = o.pickupAt ∨ time = o.dropoffAt := by
        simp only [Outing.provisions, List.mem_cons, List.not_mem_nil, or_false] at hfirst
        rcases hfirst with rfl | rfl | rfl
        · exact .inl (List.mem_singleton.1 htime)
        · exact .inr (.inl (List.mem_singleton.1 htime))
        · exact .inr (.inr (List.mem_singleton.1 htime))
      rcases hcases with rfl | rfl | rfl <;> omega
    · exact ih (fun o' ho' => htimely o' (.tail o ho')) (fun o' ho' => hlatest o' (.tail o ho'))
        (n + 1) p hrest time htime

namespace World

/-- Something came into a world together with an event. -/
structure Added (entity : Entity) (e : Event) (w w' : World) : Prop where
  same : w' = { w with clock := w'.clock, entities := w.entities ++ [entity] }
  now : w'.clock.now = w.clock.now
  strict : w.clock.Strict → w'.clock.Strict
  scheduled : w'.clock.scheduled = w.clock.scheduled + 1
  pending : ∀ d, d ∈ w'.clock.pending ↔ d = e ∨ d ∈ w.clock.pending

/-- The world was filled with outings and nothing else. -/
structure Planned (mode : ModeId) (outings : List Outing) (built w : World) : Prop where
  same : w = { built with clock := w.clock, entities := w.entities }
  now : w.clock.now = 0
  strict : w.clock.Strict
  scheduled : w.clock.scheduled = 3 * outings.length
  pending : ∀ e, e ∈ w.clock.pending ↔
    ∃ (n : Nat) (o : Outing), outings[n]? = some o ∧ e ∈ o.events n .ahead
  size : w.entities.length = 3 * outings.length
  entities : ∀ (n : Nat) (o : Outing), outings[n]? = some o → ∀ k < 3,
    w.entities[3 * n + k]? = (o.entities mode n .ahead)[k]?

variable {mode : ModeId} {before outings : List Outing} {built w w' : World}

theorem provideAll_append (w : World) (provisions more : List Provision) :
    w.provideAll (provisions ++ more) = (w.provideAll provisions).bind (·.provideAll more) := by
  induction provisions generalizing w with
  | nil => rfl
  | cons p rest ih =>
    simp only [List.cons_append, provideAll]
    cases w.provide p with
    | error halt => rfl
    | ok v => exact ih v

/-- Before time moves on, anything can be added that is due some time. -/
theorem exists_added (hnow : w.clock.now = 0) (entity : Entity) (time : Time)
    (kind : EventKind) (subject : Option Subject) :
    ∃ w', World.schedule { w with entities := w.entities ++ [entity] } time kind subject = .ok w' ∧
      w.Added entity ⟨time, kind, subject, w.clock.scheduled⟩ w' := by
  have hahead : w.clock.now ≤ time := by
    rw [hnow, UInt64.le_iff_toNat_le]
    exact Nat.zero_le _
  obtain ⟨clock, hclock, hsame, hscheduled, hpending⟩ :=
    Clock.exists_scheduleAt hahead kind subject
  refine ⟨{ w with entities := w.entities ++ [entity], clock }, ?_, rfl, hsame,
    fun h => h.scheduleAt hclock, hscheduled, fun d => ?_⟩
  · simp only [World.schedule, hclock]
    rfl
  · rw [hpending.mem_iff, List.mem_cons]

/-- The traveler of an outing and both of its stops are added, each with what they are there for. -/
structure AddedOuting (mode : ModeId) (n : Nat) (o : Outing) (w w' : World) : Prop where
  same : w' = { w with clock := w'.clock, entities := w'.entities }
  now : w'.clock.now = w.clock.now
  strict : w.clock.Strict → w'.clock.Strict
  scheduled : w'.clock.scheduled = w.clock.scheduled + 3
  pending : ∀ e, e ∈ w'.clock.pending ↔ e ∈ o.events n .ahead ∨ e ∈ w.clock.pending
  entities : w'.entities = w.entities ++ o.entities mode n .ahead

/-- Before time moves on, an outing can be filled in behind others. -/
theorem exists_addedOuting {n : Nat} (hnow : w.clock.now = 0) (hsize : w.entities.length = 3 * n)
    (hserial : w.clock.scheduled = 3 * n) (mode : ModeId) (o : Outing) :
    ∃ w', w.provideAll (o.provisions mode n) = .ok w' ∧ AddedOuting mode n o w w' := by
  obtain ⟨w₁, hw₁, hadded₁⟩ := exists_added hnow (.traveler (o.traveler mode .ahead)) o.departure
    .departure (some (.traveler w.entities.length))
  obtain ⟨w₂, hw₂, hadded₂⟩ := exists_added (hadded₁.now.trans hnow) (.stop (o.pickup mode n))
    o.pickupAt .stopReached (some (.stop w₁.entities.length))
  obtain ⟨w₃, hw₃, hadded₃⟩ := exists_added (hadded₂.now.trans (hadded₁.now.trans hnow))
    (.stop ((o.pickup mode n).dropoff (3 * n + 1))) o.dropoffAt .stopReached
    (some (.stop w₂.entities.length))
  have hdone : w.provideAll (o.provisions mode n) = .ok w₃ := by
    have hfirst : w.provide (.traveler o.person o.source [o.leg mode]) = .ok w₁ := by
      rw [provide_traveler]
      exact hw₁
    rw [← provide_stop] at hw₂ hw₃
    simp only [Outing.provisions, World.provideAll, hfirst, hw₂, hw₃, Bind.bind, Except.bind]
  have hsize₁ : w₁.entities.length = 3 * n + 1 := by
    rw [congrArg World.entities hadded₁.same, List.length_append, List.length_singleton, hsize]
  have hsize₂ : w₂.entities.length = 3 * n + 2 := by
    rw [congrArg World.entities hadded₂.same, List.length_append, List.length_singleton, hsize₁]
  have hserial₁ : w₁.clock.scheduled = 3 * n + 1 := by rw [hadded₁.scheduled, hserial]
  have hserial₂ : w₂.clock.scheduled = 3 * n + 2 := by rw [hadded₂.scheduled, hserial₁]
  refine ⟨w₃, hdone, ?_⟩
  constructor
  case same => rw [hadded₃.same, hadded₂.same, hadded₁.same]
  case now => rw [hadded₃.now, hadded₂.now, hadded₁.now]
  case strict => exact fun h => hadded₃.strict (hadded₂.strict (hadded₁.strict h))
  case scheduled => rw [hadded₃.scheduled, hadded₂.scheduled, hadded₁.scheduled]
  case pending =>
    intro e
    have hlast : e ∈ o.events n .ahead ↔
        e = o.departs n ∨ e = o.picksUp n ∨ e = o.dropsOff n := by
      simp only [Outing.events, List.mem_cons, List.not_mem_nil, or_false]
    rw [hadded₃.pending, hadded₂.pending, hadded₁.pending, hlast, hsize₁, hsize₂, hserial₁,
      hserial₂, hsize, hserial]
    show e = o.dropsOff n ∨ e = o.picksUp n ∨ e = o.departs n ∨ _ ↔ _
    tauto
  case entities =>
    have h₁ : w₁.entities = _ := congrArg World.entities hadded₁.same
    have h₂ : w₂.entities = _ := congrArg World.entities hadded₂.same
    have h₃ : w₃.entities = _ := congrArg World.entities hadded₃.same
    rw [h₃, h₂, h₁, List.append_assoc, List.append_assoc]
    rfl

/-- One more outing is planned when it is added behind the others. -/
theorem Planned.concat (h : Planned mode before built w) {o : Outing}
    (hadded : AddedOuting mode before.length o w w') : Planned mode (before ++ [o]) built w' := by
  constructor
  case same =>
    rw [hadded.same, h.same]
  case now => rw [hadded.now, h.now]
  case strict => exact hadded.strict h.strict
  case scheduled =>
    rw [hadded.scheduled, h.scheduled, List.length_append, List.length_singleton]
    omega
  case pending =>
    intro e
    rw [hadded.pending, h.pending]
    constructor
    · rintro (hnew | ⟨n, o', ho, he⟩)
      · exact ⟨_, o, List.getElem?_append_singleton_eq_some_iff.2 (.inr ⟨rfl, rfl⟩), hnew⟩
      · exact ⟨n, o', List.getElem?_append_singleton_eq_some_iff.2 (.inl ho), he⟩
    · rintro ⟨n, o', ho, he⟩
      rcases List.getElem?_append_singleton_eq_some_iff.1 ho with ho | ⟨rfl, rfl⟩
      · exact .inr ⟨n, o', ho, he⟩
      · exact .inl he
  case size =>
    rw [hadded.entities, List.length_append, h.size, List.length_append, List.length_singleton]
    show 3 * before.length + 3 = _
    omega
  case entities =>
    intro n o' ho k hk
    rw [hadded.entities]
    rcases List.getElem?_append_singleton_eq_some_iff.1 ho with ho | ⟨rfl, rfl⟩
    · have hn := (List.getElem?_eq_some_iff.1 ho).1
      rw [List.getElem?_append_left (by rw [h.size]; omega)]
      exact h.entities n o' ho k hk
    · rw [List.getElem?_append_right (by rw [h.size]; omega), h.size, Nat.add_sub_cancel_left]

/-- One more outing is filled in. -/
theorem Planned.provideAll (h : Planned mode before built w) (o : Outing) :
    ∃ w', w.provideAll (o.provisions mode before.length) = .ok w' ∧
      Planned mode (before ++ [o]) built w' := by
  obtain ⟨w', hdone, hadded⟩ := exists_addedOuting h.now h.size h.scheduled mode o
  exact ⟨w', hdone, h.concat hadded⟩

/-- Outings are filled in one after the other. -/
theorem Planned.provideOutings (h : Planned mode before built w) (outings : List Outing) :
    ∃ w', w.provideAll (provisionsFrom mode before.length outings) = .ok w' ∧
      Planned mode (before ++ outings) built w' := by
  induction outings generalizing before w with
  | nil => exact ⟨w, rfl, by rwa [List.append_nil]⟩
  | cons o rest ih =>
    obtain ⟨w₁, hfirst, hadded⟩ := h.provideAll o
    obtain ⟨w', hrest, hdone⟩ := ih hadded
    rw [List.length_append, List.length_singleton] at hrest
    refine ⟨w', ?_, by rwa [List.append_assoc, List.singleton_append] at hdone⟩
    rw [provisionsFrom, provideAll_append, hfirst]
    exact hrest

/-- A scenario that is filled with the outings of a timetable starts on time. -/
theorem Planned.onTime {tt : Timetable} (h : Planned tt.mode tt.outings built w)
    (hservices : built.services = tt.services) (htelemetry : built.telemetry = {})
    (hshifts : built.shifts = none) (hfault : built.fault = none) (hstart : w.start = .ok w') :
    w'.OnTime tt (List.replicate tt.outings.length .ahead) .empty [] := by
  have hstage {n : Nat} {stage : Stage}
      (hn : (List.replicate tt.outings.length Stage.ahead)[n]? = some stage) :
      n < tt.outings.length ∧ stage = .ahead := by
    obtain ⟨hlt, rfl⟩ := List.getElem?_eq_some_iff.1 hn
    exact ⟨by simpa using hlt, List.getElem_replicate ..⟩
  have hnone : departed (List.replicate tt.outings.length .ahead) = 0 := by
    simp [departed, List.countP_replicate]
  have hready : w.OnTime tt (List.replicate tt.outings.length .ahead) .empty [] := by
    constructor
    case length => exact List.length_replicate
    case strict => exact h.strict
    case traffic =>
      intro e _
      rw [h.pending]
      constructor
      · rintro ⟨n, o, ho, he⟩
        have hn := (List.getElem?_eq_some_iff.1 ho).1
        exact ⟨n, o, .ahead, ho, by simp [hn], he⟩
      · rintro ⟨n, o, stage, ho, hn, he⟩
        obtain ⟨-, rfl⟩ := hstage hn
        exact ⟨n, o, ho, he⟩
    case undispatched =>
      intro e he hkind
      obtain ⟨n, o, -, hmem⟩ := (h.pending e).1 he
      have htraffic := Outing.isTraffic_of_mem_events hmem
      simp [EventKind.IsTraffic, hkind] at htraffic
    case outings =>
      intro n o stage ho hn
      obtain ⟨-, rfl⟩ := hstage hn
      have htraveler : w.entities[3 * n]? = _ := h.entities n o ho 0 (by decide)
      have hpickup := h.entities n o ho 1 (by decide)
      have hdropoff := h.entities n o ho 2 (by decide)
      refine ⟨?_, ?_, ?_, rfl, ?_⟩
      · simp [traveler?, htraveler, Outing.entities]
      · simp [stop?, hpickup, Outing.entities]
      · simp [stop?, hdropoff, Outing.entities]
      · rw [h.same, htelemetry]
        rfl
    case inOrder =>
      intro n stage hn
      obtain ⟨-, rfl⟩ := hstage hn
      simp [hnone]
    case size => exact h.size
    case services => rw [h.same, hnone, tt.servicesAt_zero, ← hservices]
    case log => rw [hnone]; rfl
    case rides =>
      rw [h.same, htelemetry]
      simp [List.countP_replicate]
    case shifts => rw [h.same, hshifts]
    case fault => rw [h.same, hfault]
  exact hready.schedule (by simp [EventKind.IsTraffic]) (by simp) hstart

end World

namespace Setup

variable {s : Setup} {built : World}

/-- A world that is set up is vacant, whatever modes it has. -/
theorem build_vacant (hbuilt : s.build = .ok built) :
    built.services.verdict = s.verdict ∧ built.services.submitted = [] ∧ built.telemetry = {} ∧
      built.fault = none ∧ built.endTime = s.endTime := by
  unfold build at hbuilt
  split at hbuilt <;> cases hbuilt
  exact ⟨rfl, rfl, rfl, rfl, rfl⟩

theorem planned_build (hbuilt : s.build = .ok built) (mode : ModeId) :
    World.Planned mode [] built built := by
  obtain ⟨-, -, hentities, hclock⟩ := build_eq_ok hbuilt
  constructor
  case same => rfl
  case strict =>
    rw [hclock]
    exact ⟨.nil, by simp⟩
  all_goals simp [hclock, hentities]

/-- A scenario that is filled with the outings of a timetable completes them, unless a sum of times
overflows. That is so only if an interval between steps does not fit between the latest arrival of a
vehicle and the last time. -/
theorem timetable_completed {tt : Timetable} {latest : Nat} (hbuilt : s.build = .ok built)
    (hshifts : s.config.shifts = none) (hend : s.endTime = none)
    (hservices : tt.services = built.services)
    (hlatest : ∀ o ∈ tt.outings, o.dropoffAt.toNat ≤ latest) :
    ∃ ready started, built.provideAll (provisionsFrom tt.mode 0 tt.outings) = .ok ready ∧
      ready.start = .ok started ∧ ∀ limit,
        4 * tt.outings.length + latest / s.config.stepInterval.toNat + 3 ≤ limit →
        (started.run limit = .error .overflow ∧
            UInt64.size ≤ latest + s.config.stepInterval.toNat) ∨
          ∃ taken w, started.run limit = .ok (taken, w) ∧ w.clock.isEmpty = true ∧
            w.fault = none ∧ w.Completed tt := by
  obtain ⟨-, -, htelemetry, hfault, hlast⟩ := build_vacant hbuilt
  have hundispatched : built.shifts = none := (within_build hbuilt hshifts 0).1.shifts
  have hpositive : s.config.stepInterval ≠ 0 :=
    ((Config.fault?_eq_none_iff s.config).1 (build_eq_ok hbuilt).1).2.2.1
  have hhorizon := horizon_provisionsFrom tt.mode tt.timely hlatest 0
  obtain ⟨ready, started, hready, hstarted, hwithin, hload, hinterval⟩ :=
    within_start hbuilt hshifts (provisionsFrom tt.mode 0 tt.outings)
  obtain ⟨_, hfilled, hplanned⟩ := (planned_build hbuilt tt.mode).provideOutings tt.outings
  cases hready.symm.trans hfilled
  have hpunctual : started.OnTime tt _ .empty [] :=
    hplanned.onTime hservices.symm htelemetry hundispatched hfault hstarted
  refine ⟨ready, started, hready, hstarted, fun limit hlimit => ?_⟩
  have hbound : s.eventBound (provisionsFrom tt.mode 0 tt.outings) ≤ limit := by
    have hsteps := Nat.div_le_div_right (c := s.config.stepInterval.toNat) hhorizon
    rw [eventBound, load_provisionsFrom]
    omega
  have hends := hwithin.runFrom [] limit
  rw [hload, hinterval, Time.max_one_eq_self hpositive] at hends
  unfold World.run
  rcases hends with ⟨hrun, hsize⟩ | ⟨taken, w, hrun, -, hover⟩
  · rw [hrun]
    exact .inl ⟨rfl, by omega⟩
  · rw [List.append_nil] at hrun
    obtain ⟨stages, bound, log, hdone⟩ := hpunctual.runFrom hrun
    have hunlimited : w.endTime = none := by
      have htakes : started.Takes (fun _ => False) taken.reverse w :=
        World.takes_runFrom hrun (.here : started.Takes _ (List.reverse []) started)
      obtain ⟨clock, -, rfl⟩ := World.schedule_eq_ok hstarted
      rw [htakes.terms.2]
      exact (congrArg World.endTime hplanned.same).trans (hlast.trans hend)
    have hempty : w.clock.isEmpty = true := by
      rcases hover hbound with hempty | ⟨last, -, hlimited, -⟩ | hmet
      · exact hempty
      · rw [hunlimited] at hlimited
        cases hlimited
      · exact absurd hdone.fault hmet
    rw [hrun]
    exact .inr ⟨_, w, rfl, hempty, hdone.fault, hdone.completed hempty⟩

end Setup

end DialARide
