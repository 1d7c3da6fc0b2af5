import DialARide.Proofs.World.Workload

/-!
# Every run comes to an end

Where shifts are not dispatched every event is handled, unless the time of the next step overflows,
and leaves less to do than was left before it. So a run stops after as many events at most as there
were to be taken, and what a scenario is filled with tells in advance how many these are.
-/

namespace DialARide

namespace World

variable {w w' : World} {e : Event} {clock : Clock} {last now : Time} {id : EntityId}

/-! ## An event is handled unless a sum of times overflows -/

/-- What is not in the past can be scheduled. -/
theorem exists_schedule (w : World) {time : Time} (h : w.clock.now ≤ time) (kind : EventKind)
    (subject : Option Subject) : ∃ w', w.schedule time kind subject = .ok w' := by
  unfold schedule Clock.scheduleAt
  rw [if_neg (UInt64.not_lt.2 h)]
  exact ⟨_, rfl⟩

/-- A call for nothing in the past can be put into effect. -/
theorem exists_perform {c : Call} (hc : ∀ time, c.moment? = some time → w.clock.now ≤ time) :
    ∃ w', w.perform c = .ok w' := by
  cases c with
  | observe o => exact ⟨_, rfl⟩
  | ready stop traveler now => exact w.exists_schedule (hc now rfl) _ _
  | board vehicle id now | abort id now => exact ⟨_, rfl⟩
  | alight vehicle id link now =>
    show ∃ w', w.alight id link now = .ok w'
    unfold alight
    cases w.traveler? id with
    | none => exact ⟨_, rfl⟩
    | some t =>
      cases hnext : t.plan.advance.current? with
      | none =>
        simp only [hnext]
        exact ⟨_, rfl⟩
      | some next =>
        simp only [hnext]
        refine World.exists_schedule _ ?_ _ _
        show w.clock.now ≤ max next.leg.departure now
        rw [UInt64.max_def]
        split
        · exact hc now rfl
        · next hlate => exact UInt64.le_trans (hc now rfl) (UInt64.le_of_lt (UInt64.not_le.1 hlate))

/-- Calls for nothing in the past can be put into effect. -/
theorem exists_performAll (w : World) (calls : List Call)
    (hcalls : ∀ c ∈ calls, ∀ time, c.moment? = some time → w.clock.now ≤ time) :
    ∃ w', w.performAll calls = .ok w' := by
  induction calls generalizing w with
  | nil => exact ⟨w, rfl⟩
  | cons c calls ih =>
    obtain ⟨w₁, hc⟩ := exists_perform (hcalls c List.mem_cons_self)
    have hnow : w₁.clock.now = w.clock.now := (kept_perform hc).clock.now
    obtain ⟨w₂, hrest⟩ := ih w₁ fun d hd => by
      rw [hnow]
      exact hcalls d (List.mem_cons_of_mem c hd)
    refine ⟨w₂, ?_⟩
    unfold performAll
    rw [List.foldlM_cons, hc]
    exact hrest

/-- Where shifts are not dispatched, only the steps of the services begin. -/
theorem onStart_eq (hshifts : w.shifts = none) (now : Time) :
    w.onStart now = w.schedule now .passengerStep none := by
  unfold onStart
  cases hstep : w.schedule now .passengerStep none with
  | error halt => rfl
  | ok w₁ =>
    obtain ⟨clock, -, rfl⟩ := schedule_eq_ok hstep
    simp [hshifts, Bind.bind, Except.bind, Pure.pure, Except.pure]

/-- A departure is handled without a halt. -/
private theorem exists_onDeparture (w : World) (id : EntityId) :
    ∃ w', w.onDeparture w.clock.now id = .ok w' := by
  unfold onDeparture
  cases w.traveler? id with
  | none => exact ⟨w, rfl⟩
  | some t =>
    cases hplanned : t.plan.current? with
    | none => exact ⟨w, by simp only [hplanned]; rfl⟩
    | some planned =>
      simp only [hplanned]
      split
      · exact ⟨_, rfl⟩
      · next taken services calls hdepart =>
        have hcalls (c : Call) (hc : c ∈ calls) (time : Time) (htime : c.moment? = some time) :
            w.clock.now ≤ time := by
          rcases Services.depart_eq_ok hdepart with
            ⟨-, -, rfl⟩ | ⟨-, i, s, turn, -, -, hturn, -, rfl⟩
          · cases hc
          · rw [(Service.act_depart hturn).moment hc htime]
            exact UInt64.le_refl _
        obtain ⟨w₁, hp⟩ := World.exists_performAll
          { w.changeTraveler id ({ · with state := .waiting }) with services } calls hcalls
        exact ⟨_, by rw [hp]; rfl⟩

/-- A pickup is handled without a halt. -/
private theorem exists_onPickup (w : World) (now : Time) (id : EntityId) (st : Stop) (i : Nat) :
    ∃ w', w.onPickup now id st i = .ok w' := by
  unfold onPickup
  rcases (if st.state = .scheduled then w.services.awaitPassenger i id st.request
    else (true, w.services)) with ⟨isThere, services⟩
  rcases hturn : (if isThere then services.pickUp i st.vehicle st.request now
    else (false, services, [])) with ⟨boarded, services', calls⟩
  have hnone (c : Call) (hc : c ∈ calls) : c.moment? = none := by
    cases isThere with
    | false =>
      cases hturn
      cases hc
    | true => exact Services.moment?_of_pickUp hturn hc
  obtain ⟨w₁, hp⟩ := World.exists_performAll { w with services := services' } calls
    fun c hc time htime => by simp [hnone c hc] at htime
  simp only [hturn, hp]
  exact ⟨_, rfl⟩

/-- A dropoff is handled without a halt. -/
private theorem exists_onDropoff (w : World) (id : EntityId) (st : Stop) (pickup : EntityId)
    (i : Nat) :
    ∃ w', w.onDropoff w.clock.now id st pickup i = .ok w' := by
  unfold onDropoff
  split
  · split
    · exact ⟨_, rfl⟩
    · exact ⟨_, rfl⟩
    · next traveler services calls hact =>
      obtain ⟨s, turn, -, hturn, -, rfl⟩ := Services.act_eq_ok hact
      have hmoment : s.Act w.clock.now .other turn := Service.act_dropOff hturn
      obtain ⟨w₁, hp⟩ := World.exists_performAll { w with services } turn.calls
        fun c hc time htime => by
          rw [hmoment.moment hc htime]
          exact UInt64.le_refl _
      rw [hp]
      exact ⟨_, rfl⟩
  · exact ⟨_, rfl⟩

/-- An arrival at a stop is handled without a halt. -/
private theorem exists_onStop (w : World) (id : EntityId) :
    ∃ w', w.onStop w.clock.now id = .ok w' := by
  unfold onStop
  split
  · exact ⟨w, rfl⟩
  · split
    · exact ⟨w, rfl⟩
    · split
      · exact w.exists_onPickup _ id _ _
      · exact w.exists_onPickup _ id _ _
      · exact w.exists_onDropoff id _ _ _
      · exact ⟨w, rfl⟩

/-- A step is followed by another one just if one is needed. -/
private theorem onPassengerStep_eq {services : Services} {ns : List Nat} {calls : List Call}
    (hstep : w.services.stepAll now = (ns, services, calls))
    (hp : { w with services }.performAll calls = .ok w') : w.onPassengerStep now =
      if w'.needsStep then do
        w'.schedule (← Time.plus now (max w'.stepInterval 1)) .passengerStep none
      else .ok w' := by
  simp only [onPassengerStep, hstep, hp, Bind.bind, Except.bind]
  rfl

/-- A step leaves less to be done than there was with the step itself, or it is halted since the
time of the next step cannot be told. -/
theorem Within.onPassengerStep (hw : w.Within last) :
    (w.onPassengerStep w.clock.now = .error .overflow ∧
        UInt64.size ≤ last.toNat + (max w.stepInterval 1).toNat) ∨
      ∃ w', w.onPassengerStep w.clock.now = .ok w' ∧ w'.Within last ∧
        w'.workload last <
          w.workload last + stepsFrom last (max w.stepInterval 1) w.clock.now := by
  rcases hstep : w.services.stepAll w.clock.now with ⟨ns, services, calls⟩
  have hnone (c : Call) (hc : c ∈ calls) : c.moment? = none := Services.moment?_of_stepEach hstep hc
  obtain ⟨w₁, hp⟩ := World.exists_performAll { w with services } calls
    fun c hc time htime => by simp [hnone c hc] at htime
  obtain ⟨hdone, hload⟩ := hw.turn (hw.services.stepEach hstep)
    (fun c hc time htime => by simp [hnone c hc] at htime) hp
  have hready : calls.countP Call.isReady = 0 :=
    List.countP_eq_zero.2 fun c hc => by simp [Call.isReady_eq_false (hnone c hc)]
  have hinterval : w₁.stepInterval = w.stepInterval := (quiet_of_services hp).stepInterval
  have hnow : w₁.clock.now = w.clock.now := (kept_performAll hp).clock.now
  rw [onPassengerStep_eq hstep hp, hinterval]
  cases hneeds : w₁.needsStep with
  | false =>
    have hpos : 0 < stepsFrom last (max w.stepInterval 1) w.clock.now := Nat.succ_pos _
    exact .inr ⟨w₁, rfl, hdone, by omega⟩
  | true =>
    have hlast := hw.le_of_needsStep hstep hp hneeds
    cases htime : Time.plus w.clock.now (max w.stepInterval 1) with
    | error halt =>
      left
      unfold Time.plus at htime
      split at htime <;> cases htime
      next hover =>
      rw [UInt64.le_iff_toNat_le] at hlast
      exact ⟨rfl, by omega⟩
    | ok time =>
      have hsum := Time.plus_eq_ok_iff.1 htime
      have hahead : w₁.clock.now ≤ time := by
        rw [hnow, UInt64.le_iff_toNat_le]
        omega
      obtain ⟨w₂, hschedule⟩ := w₁.exists_schedule hahead .passengerStep none
      have hadded : w₂.workload last = w₁.workload last +
        stepsFrom last (max w₁.stepInterval 1) time := workload_schedule hschedule
      rw [hinterval] at hadded
      have hless := stepsFrom_lt (Time.max_one_pos w.stepInterval) hlast hsum
      refine .inr ⟨w₂, hschedule, ?_, by omega⟩
      exact hdone.schedule (by simp) (by simp [EventKind.IsTraffic]) hschedule

/-- The event that is taken is within the time and is no dispatch, and its weight is no longer to be
done. -/
theorem Within.next (hw : w.Within last) (hnext : w.clock.next? = some (e, clock)) :
    World.Within last { w with clock, current := some e } ∧ e.kind ≠ .shiftDispatch ∧
      (e.kind.IsTraffic → e.time ≤ last) := by
  obtain ⟨hpending, -⟩ := Clock.next?_eq_some hnext
  have hfirst : e ∈ w.clock.pending := hpending ▸ List.mem_cons_self
  have hrest (d : Event) (hd : d ∈ clock.pending) : d ∈ w.clock.pending :=
    hpending ▸ List.mem_cons_of_mem e hd
  exact ⟨⟨hw.timely.next hnext, fun d hd => hw.traffic d (hrest d hd),
    fun d hd => hw.undispatched d (hrest d hd), hw.shifts, hw.legs, hw.services⟩,
    hw.undispatched e hfirst, hw.traffic e hfirst⟩

/-- An event leaves less to do than was left before it, unless a sum of times overflows. -/
theorem Within.handle (hw : w.Within last) (hnext : w.clock.next? = some (e, clock)) :
    (World.handle { w with clock, current := some e } e = .error .overflow ∧
        UInt64.size ≤ last.toNat + (max w.stepInterval 1).toNat) ∨
      ∃ w', World.handle { w with clock, current := some e } e = .ok w' ∧ w'.Within last ∧
        w'.workload last < w.workload last := by
  obtain ⟨hafter, hkind, htraffic⟩ := hw.next hnext
  have hload : w.workload last = _ + e.weight last (max w.stepInterval 1) := workload_next hnext
  have hnow : clock.now = e.time := (Clock.next?_eq_some hnext).2
  generalize hv : ({ w with clock, current := some e } : World) = v at hafter hload ⊢
  have hvnow : v.clock.now = e.time := by rw [← hv, hnow]
  have hinterval : v.stepInterval = w.stepInterval := by rw [← hv]
  unfold World.handle
  split
  · next hstart =>
    right
    obtain ⟨w', hschedule⟩ := v.exists_schedule (UInt64.le_of_eq hvnow) .passengerStep none
    have hadded : w'.workload last = v.workload last +
      stepsFrom last (max v.stepInterval 1) e.time := workload_schedule hschedule
    rw [Event.weight, hstart] at hload
    rw [hinterval] at hadded
    rw [onStart_eq hafter.shifts]
    refine ⟨w', hschedule, ?_, by simp only at hload; omega⟩
    exact hafter.schedule (by simp) (by simp [EventKind.IsTraffic]) hschedule
  · next hdispatch => exact absurd hdispatch hkind
  · next hstep =>
    have hdone := hafter.onPassengerStep
    rw [Event.weight, hstep] at hload
    rw [hvnow, hinterval] at hdone
    refine hdone.imp_right ?_
    rintro ⟨w', hhandled, hwithin, hless⟩
    exact ⟨w', hhandled, hwithin, by simp only at hload; omega⟩
  · next id hdeparture hsubject =>
    right
    obtain ⟨w', hhandled⟩ := v.exists_onDeparture id
    rw [hvnow] at hhandled
    obtain ⟨hwithin, hless⟩ := hafter.onDeparture (htraffic (.inl hdeparture)) hhandled
    rw [Event.weight, hdeparture] at hload
    exact ⟨w', hhandled, hwithin, by simp only at hload; omega⟩
  · next id hstop hsubject =>
    right
    obtain ⟨w', hhandled⟩ := v.exists_onStop id
    rw [hvnow] at hhandled
    obtain ⟨hwithin, hless⟩ := hafter.onStop (htraffic (.inr hstop)) hhandled
    rw [Event.weight, hstop] at hload
    exact ⟨w', hhandled, hwithin, by simp only at hload; omega⟩
  · have hpos : 0 < e.weight last (max w.stepInterval 1) := Event.weight_pos last _ hkind
    exact .inr ⟨v, rfl, hafter, by omega⟩

/-! ## Runs -/

/-- The run has come to its end, since nothing is pending, the end time is reached or a fault was
met. -/
def IsOver (w : World) : Prop :=
  w.clock.isEmpty = true ∨
    (∃ last next, w.endTime = some last ∧ w.clock.nextTime? = some next ∧ last ≤ next) ∨
    w.fault ≠ none

/-- A run that is stopped has come to its end. -/
theorem isOver_of_isStopped (h : w.isStopped = true) : w.IsOver := by
  right
  unfold isStopped at h
  rcases Bool.or_eq_true_iff.1 h with hfault | hlast
  · exact .inr (Option.isSome_iff_ne_none.1 hfault)
  · left
    split at hlast
    · next last next hend hnext => exact ⟨last, next, hend, hnext, by simpa using hlast⟩
    · cases hlast

/-- A run is over, a sum of times overflows, or the next event leaves less to do. -/
theorem Within.next? (hw : w.Within last) :
    (w.next? = .ok none ∧ w.IsOver) ∨
      (w.next? = .error .overflow ∧ 0 < w.workload last ∧
        UInt64.size ≤ last.toNat + (max w.stepInterval 1).toNat) ∨
      ∃ e w', w.next? = .ok (some (e, w')) ∧ w'.Within last ∧
        w'.workload last < w.workload last ∧ w'.stepInterval = w.stepInterval := by
  unfold World.next?
  cases hstopped : w.isStopped with
  | true => exact .inl ⟨rfl, isOver_of_isStopped hstopped⟩
  | false =>
    cases hnext : w.clock.next? with
    | none =>
      refine .inl ⟨rfl, .inl ?_⟩
      unfold Clock.next? at hnext
      unfold Clock.isEmpty
      split at hnext
      · next hpending => rw [hpending, List.isEmpty_nil]
      · cases hnext
    | some outcome =>
      obtain ⟨e, clock⟩ := outcome
      have hload : w.workload last = _ + e.weight last (max w.stepInterval 1) :=
        workload_next hnext
      have hpos := Event.weight_pos last (max w.stepInterval 1) (hw.next hnext).2.1
      rcases hw.handle hnext with ⟨hover, hsize⟩ | ⟨w', hhandled, hwithin, hless⟩
      · refine .inr (.inl ⟨?_, by omega, hsize⟩)
        simp [hover, Bind.bind, Except.bind]
      · refine .inr (.inr ⟨e, w', ?_, hwithin, hless, (beat_handle hhandled).terms.1⟩)
        simp [hhandled, Bind.bind, Except.bind, Pure.pure, Except.pure]

/-- A run takes no more events than the workload, and is over if it may take as many. -/
theorem Within.runFrom (hw : w.Within last) (before : List Event) (limit : Nat) :
    (runFrom before limit w = .error .overflow ∧
        UInt64.size ≤ last.toNat + (max w.stepInterval 1).toNat) ∨
      ∃ taken w', runFrom before limit w = .ok (taken ++ before, w') ∧
        taken.length ≤ w.workload last ∧ (w.workload last ≤ limit → w'.IsOver) := by
  induction limit generalizing w before with
  | zero =>
    refine .inr ⟨[], w, rfl, Nat.zero_le _, fun hdone => ?_⟩
    rcases hw.next? with ⟨-, hover⟩ | ⟨-, hpos, -⟩ | ⟨e, w', -, -, hless, -⟩
    · exact hover
    · omega
    · omega
  | succ limit ih =>
    rcases hw.next? with ⟨hnext, hover⟩ | ⟨hnext, -, hsize⟩ | ⟨e, w₁, hnext, hwithin, hless, hterms⟩
    · refine .inr ⟨[], w, ?_, Nat.zero_le _, fun _ => hover⟩
      simp [World.runFrom, hnext]
    · refine .inl ⟨?_, hsize⟩
      simp [World.runFrom, hnext]
    · have hstep : World.runFrom before (limit + 1) w = World.runFrom (e :: before) limit w₁ := by
        simp [World.runFrom, hnext]
      rw [hstep, ← hterms]
      refine (ih hwithin (e :: before)).imp_right ?_
      rintro ⟨taken, w', hrun, hlength, hover⟩
      refine ⟨taken ++ [e], w', by rw [hrun, List.append_assoc]; rfl, ?_, fun hlimit => ?_⟩
      · rw [List.length_append, List.length_singleton]
        omega
      · exact hover (by omega)

/-- To allow for more events than the workload makes no difference to a run. -/
theorem Within.runFrom_eq (hw : w.Within last) (before : List Event) {enough limit : Nat}
    (henough : w.workload last ≤ enough) (hlimit : enough ≤ limit) :
    World.runFrom before limit w = World.runFrom before enough w := by
  induction enough generalizing w before limit with
  | zero =>
    cases limit with
    | zero => rfl
    | succ limit =>
      rcases hw.next? with ⟨hnext, -⟩ | ⟨-, hpos, -⟩ | ⟨e, w', -, -, hless, -⟩
      · simp [World.runFrom, hnext]
      · omega
      · omega
  | succ enough ih =>
    obtain ⟨limit, rfl⟩ : ∃ more, limit = more + 1 := ⟨limit - 1, by omega⟩
    unfold World.runFrom
    rcases hw.next? with ⟨hnext, -⟩ | ⟨hnext, -, -⟩ | ⟨e, w₁, hnext, hwithin, hless, -⟩
    · simp only [hnext]
    · simp only [hnext]
    · simp only [hnext]
      exact ih hwithin _ (by omega) (by omega)

end World

/-! ## Scenarios -/

/-- The times at which something that is filled in is due or was made. -/
def Provision.times : Provision → List Time
  | .traveler _ _ legs => legs.map (·.departure)
  | .stop _ time => [time]
  | .booking now _ _ => [now]
  | .rejection r => [r.time]

/-- The latest time at which something that is filled in is due or was made. -/
def horizon (provisions : List Provision) : Time := (provisions.flatMap (·.times)).foldr max 0

/-- The number of events that may come of something that is filled in, the steps apart. -/
def Provision.load : Provision → Nat
  | .traveler _ _ legs => 2 * legs.length
  | .stop .. => 1
  | .booking .. | .rejection _ => 0

/-- The number of events that a scenario takes at most. -/
def Setup.eventBound (s : Setup) (provisions : List Provision) : Nat :=
  (provisions.map (·.load)).sum +
    (horizon provisions).toNat / s.config.stepInterval.toNat + 3

/-- Nothing that is filled in is beyond the horizon. -/
theorem le_horizon {provisions : List Provision} {p : Provision} (hp : p ∈ provisions)
    {time : Time} (htime : time ∈ p.times) : time ≤ horizon provisions := by
  have hmem : time ∈ provisions.flatMap (·.times) := List.mem_flatMap.2 ⟨p, hp, htime⟩
  unfold horizon
  generalize provisions.flatMap (·.times) = times at hmem ⊢
  induction times with
  | nil => cases hmem
  | cons t rest ih =>
    rw [List.foldr_cons, UInt64.max_def]
    rcases List.mem_cons.1 hmem with rfl | hmem
    · split
      · next hle => exact hle
      · exact UInt64.le_refl _
    · split
      · exact ih hmem
      · next hlate => exact UInt64.le_trans (ih hmem) (UInt64.le_of_lt (UInt64.not_le.1 hlate))

/-- The horizon is no later than the latest of what is filled in. -/
theorem horizon_le {provisions : List Provision} {latest : Nat}
    (h : ∀ p ∈ provisions, ∀ time ∈ p.times, time.toNat ≤ latest) :
    (horizon provisions).toNat ≤ latest := by
  have htimes : ∀ time ∈ provisions.flatMap (·.times), time.toNat ≤ latest := fun time htime => by
    obtain ⟨p, hp, htime⟩ := List.mem_flatMap.1 htime
    exact h p hp time htime
  unfold horizon
  generalize provisions.flatMap (·.times) = times at htimes
  induction times with
  | nil => exact Nat.zero_le _
  | cons time rest ih =>
    rw [List.foldr_cons, UInt64.max_def]
    split
    · exact ih fun t ht => htimes t (.tail time ht)
    · exact htimes time List.mem_cons_self

namespace World

variable {w w' : World} {last : Time}

/-- A traveler whose legs all depart in time may be added. -/
theorem Within.addEntity (hw : w.Within last) {entity : Entity}
    (hlegs : ∀ t, entity = .traveler t → ∀ leg ∈ t.plan.legs, leg.departure ≤ last) :
    World.Within last { w with entities := w.entities ++ [entity] } := by
  refine ⟨hw.timely, hw.traffic, hw.undispatched, hw.shifts, fun j t ht => ?_, hw.services⟩
  unfold traveler? at ht
  have hentity := List.getElem?_append_toList w.entities (some entity) j
  rw [Option.toList_some] at hentity
  simp only [hentity] at ht
  split at ht
  · next t' hfound =>
    cases ht
    split at hfound
    · exact hlegs t (Option.some.inj hfound)
    · exact hw.legs j t (by rw [traveler?, hfound])
  · cases ht

/-- What is added brings the legs that are ahead of it. -/
theorem workload_addEntity (w : World) (entity : Entity) (last : Time) :
    World.workload last { w with entities := w.entities ++ [entity] } =
      w.workload last + 2 * entity.ahead := by
  have hsum : World.ahead { w with entities := w.entities ++ [entity] } =
      w.ahead + entity.ahead := by simp [ahead]
  have hclock : World.workload last { w with entities := w.entities ++ [entity] } =
    w.clock.workload last (max w.stepInterval 1) +
      2 * World.ahead { w with entities := w.entities ++ [entity] } := rfl
  rw [hclock, hsum, workload]
  omega

/-- Whatever is filled in before time moves on adds its load. -/
theorem Within.provide {p : Provision} (hw : w.Within last) (hnow : w.clock.now = 0)
    (hp : ∀ time ∈ p.times, time ≤ last) :
    ∃ w', w.provide p = .ok w' ∧ w'.Within last ∧ w'.clock.now = 0 ∧
      w'.workload last = w.workload last + p.load := by
  have hahead (time : Time) : w.clock.now ≤ time := by
    rw [hnow, UInt64.le_iff_toNat_le]
    exact Nat.zero_le _
  cases p with
  | traveler person link legs =>
    have hadded : World.Within last { w with
        entities := w.entities ++ [Entity.traveler { person, link, plan := { legs } }] } :=
      hw.addEntity fun t ht leg hleg => by
        cases ht
        exact hp _ (List.mem_map_of_mem hleg)
    have hload := w.workload_addEntity (.traveler { person, link, plan := { legs } }) last
    cases legs with
    | nil => exact ⟨_, rfl, hadded, hnow, hload⟩
    | cons leg rest =>
      rw [provide_traveler]
      obtain ⟨w', hschedule⟩ := World.exists_schedule { w with
        entities := w.entities ++ [.traveler { person, link, plan := { legs := leg :: rest } }] }
        (hahead leg.departure) .departure (some (.traveler w.entities.length))
      have hdeparture : w'.workload last = _ + 2 := workload_schedule hschedule
      refine ⟨w', hschedule, ?_, (kept_schedule (.inl rfl) hschedule).clock.now.trans hnow, ?_⟩
      · exact hadded.schedule (by simp) (fun _ => hp _ List.mem_cons_self) hschedule
      · rw [hdeparture, hload]
        simp only [Entity.ahead, Plan.ahead, Provision.load, List.length_cons]
        omega
  | stop st time =>
    rw [provide_stop]
    obtain ⟨w', hschedule⟩ := World.exists_schedule { w with
      entities := w.entities ++ [.stop st] } (hahead time) .stopReached
      (some (.stop w.entities.length))
    have harrival : w'.workload last = _ + 1 := workload_schedule hschedule
    refine ⟨w', hschedule, ?_, (kept_schedule (.inr rfl) hschedule).clock.now.trans hnow, ?_⟩
    · exact (hw.addEntity (by simp)).schedule (by simp) (fun _ => hp _ List.mem_cons_self) hschedule
    · rw [harrival, workload_addEntity]
      rfl
  | booking now person planned =>
    simp only [World.provide]
    split
    · next name booked hbook =>
      obtain ⟨i, s, t, hs, hturn, rfl⟩ := book_eq_ok_some hbook
      have hservice : t.service.Within last := by
        have hbefore := hw.services s (List.mem_of_getElem? hs)
        have hacts : t = { service := s } ∨ s.Act now .other t := Service.act_book hturn
        rcases hacts with rfl | hact
        · exact hbefore
        · exact hbefore.act hact (by simp)
      refine ⟨_, rfl, ?_, hnow, rfl⟩
      refine ⟨hw.timely, hw.traffic, hw.undispatched, hw.shifts, hw.legs,
        hw.services.commit hservice fun r hr => ?_⟩
      rw [Service.submittedAt_book hturn hr]
      exact hp now List.mem_cons_self
    · exact ⟨w, rfl, hw, hnow, rfl⟩
  | rejection r =>
    refine ⟨_, rfl, ?_, hnow, rfl⟩
    exact ⟨hw.timely, hw.traffic, hw.undispatched, hw.shifts, hw.legs,
      hw.services.publish (hp r.time List.mem_cons_self)⟩

/-- Everything can be filled in, and adds its load. -/
theorem Within.provideAll {provisions : List Provision} (hw : w.Within last)
    (hnow : w.clock.now = 0) (hp : ∀ p ∈ provisions, ∀ time ∈ p.times, time ≤ last) :
    ∃ w', w.provideAll provisions = .ok w' ∧ w'.Within last ∧ w'.clock.now = 0 ∧
      w'.workload last = w.workload last + (provisions.map (·.load)).sum := by
  induction provisions generalizing w with
  | nil => exact ⟨w, rfl, hw, hnow, rfl⟩
  | cons p rest ih =>
    obtain ⟨w₁, hfirst, hwithin, hstill, hload⟩ := hw.provide hnow (hp p List.mem_cons_self)
    obtain ⟨w', hrest, hdone, hstays, hmore⟩ :=
      ih hwithin hstill fun q hq => hp q (List.mem_cons_of_mem p hq)
    refine ⟨w', ?_, hdone, hstays, ?_⟩
    · simp [World.provideAll, hfirst, hrest, Bind.bind, Except.bind]
    · rw [hmore, hload, List.map_cons, List.sum_cons, Nat.add_assoc]

end World

namespace Setup

variable {s : Setup} {provisions : List Provision} {built : World}

/-- A world that is set up without shifts has nothing to do. -/
theorem within_build (hbuilt : s.build = .ok built) (hshifts : s.config.shifts = none)
    (last : Time) : built.Within last ∧ built.workload last = 0 ∧
      built.stepInterval = s.config.stepInterval := by
  obtain ⟨-, hmembers, hentities, hclock⟩ := build_eq_ok hbuilt
  have hset : built.shifts = none ∧ built.stepInterval = s.config.stepInterval := by
    unfold build at hbuilt
    split at hbuilt <;> cases hbuilt
    exact ⟨by rw [hshifts, Option.map_none], rfl⟩
  refine ⟨⟨?_, ?_, ?_, hset.1, ?_, ?_⟩, ?_, hset.2⟩
  · rw [hclock]
    exact ⟨.nil, by simp⟩
  · simp [hclock]
  · simp [hclock]
  · intro id t ht
    simp [World.traveler?, hentities] at ht
  · intro u hu
    rw [hmembers] at hu
    obtain ⟨rule, -, rfl⟩ := List.mem_map.1 hu
    obtain ⟨-, -, hmailbox, hparked⟩ := s.service_terms rule
    exact ⟨by simp [hmailbox], by simp [hparked]⟩
  · simp [World.workload, World.ahead, Clock.workload, hclock, hentities]

/-- A scenario without shifts can be filled and started, and has then no more to do than its
bound. -/
theorem within_start (hbuilt : s.build = .ok built) (hshifts : s.config.shifts = none)
    (provisions : List Provision) :
    ∃ ready started, built.provideAll provisions = .ok ready ∧ ready.start = .ok started ∧
      started.Within (horizon provisions) ∧
      started.workload (horizon provisions) = s.eventBound provisions ∧
      started.stepInterval = s.config.stepInterval := by
  obtain ⟨hwithin, hload, hinterval⟩ := within_build hbuilt hshifts (horizon provisions)
  obtain ⟨hfault, -, -, hclock⟩ := build_eq_ok hbuilt
  have hpositive : s.config.stepInterval ≠ 0 :=
    ((Config.fault?_eq_none_iff s.config).1 hfault).2.2.1
  obtain ⟨ready, hready, hfilled, hnow, hloaded⟩ := hwithin.provideAll (by rw [hclock])
    fun p hp time htime => le_horizon hp htime
  have hsame : ready.stepInterval = s.config.stepInterval :=
    (World.quiet_provideAll hready).stepInterval.trans hinterval
  obtain ⟨started, hstarted⟩ := ready.exists_schedule (UInt64.le_of_eq hnow) .simulationStarted none
  refine ⟨ready, started, hready, hstarted, ?_, ?_, ?_⟩
  · exact hfilled.schedule (by simp) (by simp [EventKind.IsTraffic]) hstarted
  · have hstart : started.workload (horizon provisions) = ready.workload (horizon provisions) +
        (stepsFrom (horizon provisions) (max ready.stepInterval 1) 0 + 1) :=
      World.workload_schedule hstarted
    have hpos : 0 < s.config.stepInterval.toNat :=
      Nat.pos_of_ne_zero fun hzero => hpositive (UInt64.toNat_inj.1 hzero)
    rw [hstart, hloaded, hload, hsame, Time.max_one_eq_self hpositive, stepsFrom, UInt64.toNat_zero,
      Nat.sub_zero, Nat.add_div_right _ hpos, eventBound]
    omega
  · obtain ⟨clock, -, rfl⟩ := World.schedule_eq_ok hstarted
    exact hsame

/-- Every scenario without shifts ends, whatever travelers, stops and bookings it is filled with:
to allow for more events than its bound makes no difference. A run that may take as many stops
since nothing is pending, the end time is reached or a fault was met, or a sum of times overflows,
which is so only if the interval between steps does not fit between the horizon and the last
time. -/
theorem run_ends (hbuilt : s.build = .ok built) (hshifts : s.config.shifts = none)
    (provisions : List Provision) :
    ∃ ready started, built.provideAll provisions = .ok ready ∧ ready.start = .ok started ∧
      ∀ limit, s.eventBound provisions ≤ limit →
        started.run limit = started.run (s.eventBound provisions) ∧
        ((started.run limit = .error .overflow ∧
            UInt64.size ≤ (horizon provisions).toNat + s.config.stepInterval.toNat) ∨
          ∃ taken w, started.run limit = .ok (taken, w) ∧
            taken.length ≤ s.eventBound provisions ∧ w.IsOver) := by
  obtain ⟨ready, started, hready, hstarted, hwithin, hload, hinterval⟩ :=
    within_start hbuilt hshifts provisions
  refine ⟨ready, started, hready, hstarted, fun limit hlimit => ⟨?_, ?_⟩⟩
  · unfold World.run
    rw [hwithin.runFrom_eq [] (Nat.le_of_eq hload) hlimit]
  · have hpositive : s.config.stepInterval ≠ 0 :=
      ((Config.fault?_eq_none_iff s.config).1 (build_eq_ok hbuilt).1).2.2.1
    have hends := hwithin.runFrom [] limit
    rw [hload, hinterval, Time.max_one_eq_self hpositive] at hends
    unfold World.run
    rcases hends with ⟨hrun, hsize⟩ | ⟨taken, w, hrun, hlength, hover⟩
    · rw [hrun]
      exact .inl ⟨rfl, hsize⟩
    · rw [hrun, List.append_nil]
      exact .inr ⟨taken.reverse, w, rfl, by rwa [List.length_reverse], hover hlimit⟩

end Setup

/-- A traveler is rejected, and the vehicle that calls at home and at work comes in vain. The run is
over after ten events at most. -/
theorem rejected_commuters_come_to_rest : ∃ built ready started taken w,
    rejectedCommute.build = .ok built ∧ built.provideAll rejectedCommuters = .ok ready ∧
      ready.start = .ok started ∧ rejectedCommute.eventBound rejectedCommuters = 10 ∧
      started.run 10 = .ok (taken, w) ∧ taken.length ≤ 10 ∧ w.IsOver := by
  have hbuilt : rejectedCommute.build = .ok _ := rfl
  have hbound : rejectedCommute.eventBound rejectedCommuters = 10 := by decide
  obtain ⟨ready, started, hready, hstarted, hruns⟩ :=
    Setup.run_ends hbuilt rfl rejectedCommuters
  obtain ⟨-, ⟨-, hsize⟩ | ⟨taken, w, hrun, hlength, hover⟩⟩ := hruns 10 (Nat.le_of_eq hbound)
  · exact absurd hsize (by decide)
  · exact ⟨_, ready, started, taken, w, hbuilt, hready, hstarted, hbound, hrun, hbound ▸ hlength,
      hover⟩

end DialARide
