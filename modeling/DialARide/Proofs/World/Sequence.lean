import DialARide.Proofs.World.Agenda
import DialARide.Proofs.World.Unbound

/-!
# The sequence of events

Events are taken in the order of their times, and none is taken at the end of the run or later.
While a departure or an arrival is handled, other events may be scheduled for the same instant, but
only departures and arrivals are: so whatever the start, the dispatches and the steps of an instant
do comes before all traffic of that instant. A step therefore applies a rejection at a later time
than the one at which its passenger departed, whenever the rejection was published.
-/

namespace DialARide

namespace World

variable {w w' : World} {e : Event} {clock : Clock}

/-! ## What is put down, and when -/

/-- What is put down while an event is handled is of the time of the event. Departures alone tell
that somebody waits, and steps alone that somebody is rejected. -/
structure Tells (e : Event) (o : Observation) : Prop where
  time : o.time = e.time
  waiting : o.kind = .waiting → e.kind = .departure
  rejected : o.kind = .rejected → e.kind = .passengerStep

/-- The log is continued by what an event tells. -/
def Continued (w : World) (e : Event) (w' : World) : Prop :=
  ∃ more, w'.telemetry.observations = w.telemetry.observations ++ more ∧ ∀ o ∈ more, Tells e o

/-- Where nothing is put down, the log is continued by nothing. -/
theorem continued_of_same (h : w'.telemetry.observations = w.telemetry.observations) :
    Continued w e w' :=
  ⟨[], by rw [h, List.append_nil], by simp⟩

/-- Calls put down what is observed in them. -/
theorem continued_performAll {v : World} {services : Services} {calls : List Call}
    (hlog : v.telemetry.observations = w.telemetry.observations)
    (hp : { v with services }.performAll calls = .ok w')
    (htells : ∀ o ∈ observed calls, Tells e o) : Continued w e w' :=
  ⟨observed calls, (observations_performAll hp).trans (congrArg (· ++ observed calls) hlog), htells⟩

/-- A step tells of rejections at its own time only. -/
private theorem continued_onPassengerStep (hkind : e.kind = .passengerStep)
    (h : w.onPassengerStep e.time = .ok w') : Continued w e w' := by
  obtain ⟨ns, services, calls, w₁, hstep, hp, hafter⟩ := onPassengerStep_eq_ok h
  have hcontinued : Continued w e w₁ := by
    refine continued_performAll rfl hp fun o ho => ?_
    have hrejected := Services.kind_of_stepEach hstep ho
    exact ⟨(Services.turns_stepEach hstep).time_of_observed ho,
      fun hwaiting => by simp [hrejected] at hwaiting, fun _ => hkind⟩
  rcases hafter with ⟨-, rfl⟩ | ⟨time, -, hschedule⟩
  · exact hcontinued
  · obtain ⟨clock, -, rfl⟩ := schedule_eq_ok hschedule
    exact hcontinued

/-- A departure tells that somebody waits, at its own time, and nothing else. -/
private theorem continued_onDeparture {id : EntityId} (hkind : e.kind = .departure)
    (h : w.onDeparture e.time id = .ok w') : Continued w e w' := by
  rcases onDeparture_eq_ok h with ⟨rfl, -⟩ | ⟨t, planned, -, -, ⟨fault, -, rfl⟩ |
    ⟨taken, services, calls, w₁, hdepart, hp, rfl⟩⟩
  · exact continued_of_same rfl
  · exact continued_of_same rfl
  · have hlog : (w.changeTraveler id ({ · with state := .waiting })).telemetry.observations =
        w.telemetry.observations := rfl
    have hcontinued : Continued w e w₁ := by
      refine continued_performAll hlog hp fun o ho => ?_
      rcases Services.depart_eq_ok hdepart with ⟨-, -, rfl⟩ |
        ⟨-, i, s, turn, hs, -, hturn, -, rfl⟩
      · cases ho
      · have htime := (Service.act_depart hturn).time_of_observed ho
        obtain ⟨o', ready, hcalls, hwaiting, hready⟩ := Service.calls_depart hturn
        rw [hcalls, observed_cons_observe, hready, List.mem_singleton] at ho
        subst ho
        exact ⟨htime, fun _ => hkind, fun hrejected => by simp [hwaiting] at hrejected⟩
    split
    · exact hcontinued
    · exact hcontinued

/-- Nobody waits or is rejected when a passenger boards or alights. -/
theorem continued_of_turn {v : World} {s : Service} {i : Nat} {turn : Turn} {o : Observation}
    (ha : s.Act e.time .other turn) (hobserved : observed turn.calls = [o])
    (hkind : o.kind = .pickedUp ∨ o.kind = .droppedOff)
    (hp : { w with services := w.services.commit i turn }.performAll turn.calls = .ok v) :
    Continued w e v := by
  refine continued_performAll rfl hp fun o' ho' => ?_
  have htime := ha.time_of_observed ho'
  rw [hobserved, List.mem_singleton] at ho'
  subst ho'
  rcases hkind with hkind | hkind <;> exact ⟨htime, by simp [hkind], by simp [hkind]⟩

/-- An arrival tells of a pickup or a dropoff at its own time. -/
private theorem continued_onStop {id : EntityId} (h : w.onStop e.time id = .ok w') :
    Continued w e w' := by
  rcases onStop_eq_ok h with ⟨rfl, -⟩ | ⟨st, i, s, -, hs, -, ⟨-, hstate, h⟩ | ⟨pickup, -, -, h⟩⟩
  · exact continued_of_same rfl
  · rcases onPickup_eq_ok hstate hs h with ⟨-, -, rfl⟩ | ⟨-, -, rfl⟩ | ⟨turn, w₁, hturn, hp, rfl⟩
    · exact continued_of_same rfl
    · exact continued_of_same rfl
    · obtain ⟨o, hobserved, hkind, -⟩ := Service.observed_pickUp hturn
      have hcontinued := continued_of_turn (Service.act_pickUp hturn) hobserved (.inl hkind) hp
      exact hcontinued
  · rcases onDropoff_eq_ok hs h with ⟨-, rfl⟩ | ⟨-, ⟨fault, -, rfl⟩ |
      ⟨traveler, turn, w₁, hturn, hp, rfl⟩⟩
    · exact continued_of_same rfl
    · exact continued_of_same rfl
    · obtain ⟨o, hobserved, hkind, -⟩ := Service.observed_dropOff hturn
      have hcontinued := continued_of_turn (Service.act_dropOff hturn) hobserved (.inr hkind) hp
      exact hcontinued

/-- Every event continues the log. -/
theorem continued_handle (h : w.handle e = .ok w') : Continued w e w' := by
  unfold handle at h
  split at h
  · have hsame := (traced_onStart h).log
    exact continued_of_same (hsame.trans (List.append_nil _))
  · have hsame := (traced_onShiftDispatch h).log
    exact continued_of_same (hsame.trans (List.append_nil _))
  · next hkind => exact continued_onPassengerStep hkind h
  · next hkind _ => exact continued_onDeparture hkind h
  · exact continued_onStop h
  · cases h
    exact continued_of_same rfl

/-! ## A whole run -/

/-- Events were taken in sequence, traffic is behind everything else that was due by then, and the
log tells of no rejection at the time of an earlier departure. -/
structure Sequenced (w : World) (taken : List Event) : Prop where
  timely : w.clock.Timely
  arranged : w.clock.Arranged
  past : ∀ d ∈ taken, d.time ≤ w.clock.now
  forward : taken.Pairwise fun d e => d.time ≤ e.time
  behind : ∀ d ∈ taken, d.kind.IsTraffic → ∀ e ∈ w.clock.pending, ¬ e.kind.IsTraffic →
    d.time < e.time
  trafficLast : taken.Pairwise fun d e => d.time = e.time → d.kind.IsTraffic → e.kind.IsTraffic
  inTime : ∀ last, w.endTime = some last → ∀ e ∈ taken, e.time < last
  departed : ∀ o ∈ w.telemetry.observations, o.kind = .waiting →
    ∃ d ∈ taken, d.kind = .departure ∧ d.time = o.time
  deferred : w.telemetry.observations.Pairwise fun o o' =>
    o.kind = .waiting → o'.kind = .rejected → o.time < o'.time

/-- The run takes no event at its end or later. -/
theorem time_lt_endTime (h : w.next? = .ok (some (e, w'))) {last : Time}
    (hlast : w.endTime = some last) : e.time < last := by
  obtain ⟨-, clock, hclock, -⟩ := next?_eq_ok_some h
  have hgoes : w.isStopped = false := by
    unfold next? at h
    split at h
    · cases h
    · next hgoes => simpa using hgoes
  rw [isStopped, hlast, Clock.nextTime?, (Clock.next?_eq_some hclock).1] at hgoes
  simp only [List.head?_cons, Option.map_some, Bool.or_eq_false_iff, decide_eq_false_iff_not,
    UInt64.not_le] at hgoes
  exact hgoes.2

/-- Departures and arrivals come last among the kinds. -/
theorem rank_lt_of_isTraffic {kind other : EventKind} (h : kind.IsTraffic)
    (hother : ¬ other.IsTraffic) : other.rank < kind.rank := by
  rcases h with rfl | rfl <;> cases other <;>
    simp [EventKind.IsTraffic] at hother <;> decide

/-- What follows on an event and is no traffic follows on something else than traffic, and is due
no earlier. -/
theorem FollowUp.later {d : Event} (h : FollowUp w w' e d) (hother : ¬ d.kind.IsTraffic) :
    ¬ e.kind.IsTraffic ∧ e.time ≤ d.time := by
  rcases h with htraffic | ⟨hkind, -, htime⟩ | ⟨hkind, -, htime⟩ | ⟨hkind, -, -, htime⟩
  · exact absurd htraffic hother
  · exact ⟨by simp [EventKind.IsTraffic, hkind], UInt64.le_of_eq htime.symm⟩
  · exact ⟨by simp [EventKind.IsTraffic, hkind], UInt64.le_iff_toNat_le.2 (by omega)⟩
  · exact ⟨by simp [EventKind.IsTraffic, hkind], UInt64.le_iff_toNat_le.2 (by omega)⟩

/-- Traffic stays behind what is pending when an event is taken. What is no traffic follows only on
what is no traffic, and that was behind already. -/
private theorem Sequenced.behind_event {taken : List Event} {v : World} {clock : Clock}
    (h : w.Sequenced taken) (hclock : w.clock.next? = some (e, clock))
    (hgrown : clock.Grown (FollowUp v w' e) w'.clock) {d f : Event} (hd : d ∈ taken ++ [e])
    (htraffic : d.kind.IsTraffic) (hf : f ∈ w'.clock.pending) (hother : ¬ f.kind.IsTraffic) :
    d.time < f.time := by
  have hpending := (Clock.next?_eq_some hclock).1
  rw [List.mem_append, List.mem_singleton] at hd
  rcases hgrown.mem_or hf with hfollow | hold
  · obtain ⟨hkind, hlater⟩ := hfollow.later hother
    rcases hd with hd | rfl
    · have hmem : e ∈ w.clock.pending := hpending ▸ List.mem_cons_self
      exact UInt64.lt_of_lt_of_le (h.behind d hd htraffic e hmem hkind) hlater
    · exact absurd htraffic hkind
  · rcases hd with hd | rfl
    · exact h.behind d hd htraffic f (hpending ▸ List.mem_cons_of_mem e hold) hother
    · rcases (h.arranged.next hclock).2 f hold with hlt | ⟨-, hrank⟩
      · exact hlt
      · exact absurd (rank_lt_of_isTraffic htraffic hother) (Nat.not_lt.2 hrank)

/-- Events go on in sequence. -/
theorem Sequenced.event {taken : List Event} (h : w.Sequenced taken)
    (hnext : w.next? = .ok (some (e, w'))) : w'.Sequenced (taken ++ [e]) := by
  obtain ⟨-, clock, hclock, hhandle⟩ := next?_eq_ok_some hnext
  obtain ⟨hpending, hnow⟩ := Clock.next?_eq_some hclock
  obtain ⟨harranged, -⟩ := h.arranged.next hclock
  have hb := beat_handle hhandle
  have hgrown := hb.grown
  have hmem : e ∈ w.clock.pending := hpending ▸ List.mem_cons_self
  have hpast : ∀ d ∈ taken, d.time ≤ e.time := fun d hd =>
    UInt64.le_trans (h.past d hd) (h.timely.ahead e hmem)
  have hnow' : w'.clock.now = e.time := hgrown.now.trans hnow
  obtain ⟨more, hlog, htells⟩ := continued_handle hhandle
  have hlog : w'.telemetry.observations = w.telemetry.observations ++ more := hlog
  constructor
  · exact hgrown.timely (h.timely.next hclock)
  · exact hb.arranged harranged
  · intro d hd
    rw [hnow']
    rcases List.mem_append.1 hd with hd | hd
    · exact hpast d hd
    · exact UInt64.le_of_eq (congrArg Event.time (List.mem_singleton.1 hd))
  · exact h.forward.concat hpast
  · exact fun d hd htraffic f hf hother => h.behind_event hclock hgrown hd htraffic hf hother
  · refine h.trafficLast.concat fun d hd htime htraffic => ?_
    by_contra hnot
    exact UInt64.ne_of_lt (h.behind d hd htraffic e hmem hnot) htime
  · intro last hlast d hd
    have hlast : w.endTime = some last := hb.terms.2.symm.trans hlast
    rcases List.mem_append.1 hd with hd | hd
    · exact h.inTime last hlast d hd
    · rw [List.mem_singleton.1 hd]
      exact time_lt_endTime hnext hlast
  · intro o ho hwaiting
    rw [hlog] at ho
    rcases List.mem_append.1 ho with ho | ho
    · obtain ⟨d, hd, hdeparture⟩ := h.departed o ho hwaiting
      exact ⟨d, List.mem_append_left _ hd, hdeparture⟩
    · refine ⟨e, List.mem_append_right _ (List.mem_singleton.2 rfl), (htells o ho).waiting hwaiting,
        (htells o ho).time.symm⟩
  · rw [hlog, List.pairwise_append]
    refine ⟨h.deferred, ?_, ?_⟩
    · refine List.pairwise_of_forall_mem_list fun o ho o' ho' hwaiting hrejected => ?_
      have hdeparture := (htells o ho).waiting hwaiting
      have hstep := (htells o' ho').rejected hrejected
      rw [hdeparture] at hstep
      cases hstep
    · intro o ho o' ho' hwaiting hrejected
      obtain ⟨d, hd, hdeparture, htime⟩ := h.departed o ho hwaiting
      have hstep := (htells o' ho').rejected hrejected
      rw [← htime, (htells o' ho').time]
      exact h.behind d hd (.inl hdeparture) e hmem (by simp [EventKind.IsTraffic, hstep])

/-- Every run takes its events in sequence. -/
theorem Takes.sequenced {allowed : Rejection → Prop} {taken : List Event}
    (h : w.Takes allowed taken w') (hw : w.Sequenced []) : w'.Sequenced taken := by
  induction h with
  | here => exact hw
  | event _ hnext ih => exact ih.event hnext
  | publish r _ _ ih => exact { ih with }

end World

/-- Nothing is put down of a request before its passenger waits. -/
theorem Services.Chronicled.not_before_waiting {h : Services} {before after : List Observation}
    {o o' : Observation} (hh : h.Chronicled (before ++ o :: after)) (hwaiting : o.kind = .waiting)
    (ho' : o' ∈ before) : ¬ (o'.mode = o.mode ∧ o'.request = o.request) := by
  rintro ⟨hmode, hrequest⟩
  have hride := hh.ride o.mode o.request
  have hthis : course o.mode o.request (o :: after) =
      .waiting :: course o.mode o.request after := by
    simp [course, hwaiting]
  rw [course_append, hthis] at hride
  have hmem : o'.kind ∈ course o.mode o.request before :=
    mem_course_iff.2 ⟨o', ho', hmode, hrequest, rfl⟩
  rw [hride.eq_nil_of_waiting] at hmem
  cases hmem

namespace Setup

variable {s : Setup} {provisions : List Provision} {taken : List Event}
  {built ready started w : World}

/-- A world that starts is in sequence, since no event was taken yet. -/
theorem sequenced_start (hbuilt : s.build = .ok built)
    (hready : built.provideAll provisions = .ok ready) (hstarted : ready.start = .ok started) :
    started.Sequenced [] := by
  obtain ⟨htimely, harranged, -, -⟩ := pending_start hbuilt hready hstarted
  have hlog : started.telemetry.observations = [] := by
    obtain ⟨clock, -, rfl⟩ := World.schedule_eq_ok hstarted
    exact (chronicled_provideAll hbuilt hready).2
  exact {
    timely := htimely
    arranged := harranged
    past := by simp
    forward := .nil
    behind := by simp
    trafficLast := .nil
    inTime := by simp
    departed := by simp [hlog]
    deferred := by simp [hlog] }

/-- Whatever is rejected and whenever, events are taken in the order of their times, before the end
of the run if it has one, and within one instant no departure or arrival comes before an event of
another kind. A rejection is put down later than the departure that its passenger waits from. -/
theorem Runs.in_sequence (h : s.Runs (fun _ => True) provisions taken w) :
    taken.Pairwise (fun d e => d.time ≤ e.time) ∧
      (∀ last, s.endTime = some last → ∀ e ∈ taken, e.time < last) ∧
      taken.Pairwise (fun d e => d.time = e.time → d.kind.IsTraffic → e.kind.IsTraffic) ∧
      ∀ o ∈ w.telemetry.observations, ∀ o' ∈ w.telemetry.observations, o.mode = o'.mode →
        o.request = o'.request → o.kind = .waiting → o'.kind = .rejected → o.time < o'.time := by
  have hchronicled := h.reaches.chronicled
  have hend := h.terms.2
  obtain ⟨-, built, ready, started, hbuilt, hready, hstarted, htakes⟩ := h
  have hw := htakes.sequenced (sequenced_start hbuilt hready hstarted)
  refine ⟨hw.forward, fun last hlast => hw.inTime last (hend.trans hlast), hw.trafficLast, ?_⟩
  intro o ho o' ho' hmode hrequest hwaiting hrejected
  obtain ⟨before, after, hlog⟩ := List.append_of_mem ho
  have hdeferred := hw.deferred
  rw [hlog] at ho' hchronicled hdeferred
  rcases List.mem_append.1 ho' with hbefore | hafter
  · exact absurd ⟨hmode.symm, hrequest.symm⟩ (hchronicled.not_before_waiting hwaiting hbefore)
  · rcases List.mem_cons.1 hafter with rfl | hafter
    · rw [hwaiting] at hrejected
      cases hrejected
    · have hlater := (List.pairwise_cons.1 (List.pairwise_append.1 hdeferred).2.1).1
      exact hlater o' hafter hwaiting hrejected

/-- The ride to work with a rejection on board, in a run that ends before the dropoff. -/
def shortMorning : Setup := { rejectedCommute with endTime := some 150 }

/-- The traveler waits, is picked up and is rejected by the next step. -/
theorem short_morning_in_sequence : ∃ taken w o o',
    shortMorning.record rejectedCommuters 9 = some (taken, w) ∧
    taken.map (·.kind) = [.simulationStarted, .passengerStep, .passengerStep, .departure,
      .stopReached, .passengerStep] ∧
    taken.Pairwise (fun d e => d.time ≤ e.time) ∧ (∀ e ∈ taken, e.time < 150) ∧
    taken.Pairwise (fun d e => d.time = e.time → d.kind.IsTraffic → e.kind.IsTraffic) ∧
    o ∈ w.telemetry.observations ∧ o' ∈ w.telemetry.observations ∧ o.mode = o'.mode ∧
    o.request = o'.request ∧ o.kind = .waiting ∧ o'.kind = .rejected ∧ o.time < o'.time := by
  have hplay : ((shortMorning.record rejectedCommuters 9).bind fun run =>
      (run.2.telemetry.observations.find? (·.kind = .waiting)).bind fun o =>
        (run.2.telemetry.observations.find? (·.kind = .rejected)).bind fun o' =>
          if run.1.map (·.kind) = [.simulationStarted, .passengerStep, .passengerStep, .departure,
              .stopReached, .passengerStep] ∧ o.mode = o'.mode ∧ o.request = o'.request then
            some () else none) = some () := by
    decide +kernel
  obtain ⟨⟨taken, w⟩, hrecord, hrest⟩ := Option.bind_eq_some_iff.1 hplay
  obtain ⟨o, hfound, hrest⟩ := Option.bind_eq_some_iff.1 hrest
  obtain ⟨o', hfound', hif⟩ := Option.bind_eq_some_iff.1 hrest
  split at hif
  · next hall =>
    obtain ⟨hkinds, hmode, hrequest⟩ := hall
    have ho := List.mem_of_find?_eq_some hfound
    have ho' := List.mem_of_find?_eq_some hfound'
    have hwaiting : o.kind = .waiting := by simpa using List.find?_some hfound
    have hrejected : o'.kind = .rejected := by simpa using List.find?_some hfound'
    have hruns : shortMorning.Runs (fun _ => True) rejectedCommuters taken w :=
      runs_of_record (fun _ _ => trivial) hrecord
    obtain ⟨hforward, hbefore, hlast, hdeferred⟩ := Runs.in_sequence hruns
    exact ⟨taken, w, o, o', hrecord, hkinds, hforward, hbefore 150 rfl, hlast, ho, ho', hmode,
      hrequest, hwaiting, hrejected, hdeferred o ho o' ho' hmode hrequest hwaiting hrejected⟩
  · cases hif

end Setup

end DialARide
