import DialARide.Proofs.Ride.Chronicle

/-!
# What a service reads

A step reads the rejections that are due, one after the other. One that concerns a bound request
aborts the journey, and nothing else that is asked of a service tells of a rejection or aborts
anybody. One that concerns a booking is parked, and a later one takes its place. The end of a ride
comes once, so at most one rejection of a request takes effect, and none does once the passenger
was dropped off.
-/

namespace DialARide

/-- A rejection that a service reads, whether its request is booked then, and what comes of it. -/
structure Reading where
  rejection : Rejection
  booked : Bool
  calls : List Call
  deriving DecidableEq, Repr

namespace Reading

/-- It is the rejection of a request that is read, and it takes effect on somebody. -/
def Strikes (id : RequestId) (x : Reading) : Prop := x.rejection.request = id ∧ x.calls ≠ []

instance (id : RequestId) : DecidablePred (Strikes id) := fun x =>
  inferInstanceAs (Decidable (x.rejection.request = id ∧ x.calls ≠ []))

/-- A rejection that takes effect is observed and aborts one journey. -/
def Sound (x : Reading) : Prop := x.calls = [] ∨ ∃ (o : Observation) (traveler : EntityId),
  x.calls = [.observe o, .abort traveler o.time] ∧ o.kind = .rejected ∧
    o.request = x.rejection.request

/-- The rejection of a request that was read last while the request was booked. -/
def held (id : RequestId) (readings : List Reading) : Option Rejection :=
  ((readings.filter fun x => x.rejection.request = id ∧ x.booked).getLast?).map (·.rejection)

theorem held_append (id : RequestId) (readings more : List Reading) :
    held id (readings ++ more) = (held id more).or (held id readings) := by
  unfold held
  rw [List.filter_append, List.getLast?_append]
  cases (more.filter fun x => x.rejection.request = id ∧ x.booked).getLast? <;> rfl

theorem request_of_held {id : RequestId} {readings : List Reading} {r : Rejection}
    (h : held id readings = some r) : r.request = id := by
  obtain ⟨x, hx, rfl⟩ := Option.map_eq_some_iff.1 h
  have hmem := (List.mem_filter.1 (List.mem_of_getLast? hx)).2
  exact (of_decide_eq_true hmem).1

end Reading

/-- The call tells of a rejection that takes effect. -/
def Call.rejects : Call → Bool
  | .observe o => o.kind = .rejected
  | .abort .. => true
  | .ready .. | .board .. | .alight .. => false

/-- The observations in which calls tell that a request is rejected. -/
def rejectionsOf (id : RequestId) (calls : List Call) : List Observation :=
  (observed calls).filter fun o => o.request = id ∧ o.kind = .rejected

theorem rejectionsOf_append (id : RequestId) (calls more : List Call) :
    rejectionsOf id (calls ++ more) = rejectionsOf id calls ++ rejectionsOf id more := by
  simp [rejectionsOf]

/-- Calls that do not tell of a rejection are of no account. -/
theorem rejectionsOf_filter (id : RequestId) (calls : List Call) :
    rejectionsOf id (calls.filter (·.rejects)) = rejectionsOf id calls := by
  induction calls with
  | nil => rfl
  | cons c calls ih =>
    have hfirst : rejectionsOf id ([c].filter (·.rejects)) = rejectionsOf id [c] := by
      cases c with
      | observe o => by_cases hkind : o.kind = .rejected <;>
          simp [rejectionsOf, observed, Call.rejects, Call.observation?, hkind]
      | ready | board | alight | abort => rfl
    rw [← List.singleton_append, List.filter_append, rejectionsOf_append, hfirst, ih,
      rejectionsOf_append]

/-- A request is told to be rejected as often as rejection is among its stages. -/
private theorem count_rejected (id : RequestId) (calls : List Call) :
    (stages id calls).count .rejected = (rejectionsOf id calls).length := by
  rw [stages_eq, rejectionsOf, List.count_eq_countP, List.countP_map, List.countP_filter,
    List.countP_eq_length_filter]
  congr 2
  funext o
  simp [beq_eq_decide, Bool.and_comm]

/-- A ride ends once at most. -/
theorem IsRide.count_le {l : List ObservationKind} (h : IsRide l) :
    l.count .rejected + l.count .droppedOff ≤ 1 := by
  obtain ⟨whole, hwhole, hprefix⟩ := h
  have hends : ∀ whole ∈ rideCourses, whole.count .rejected + whole.count .droppedOff ≤ 1 := by
    decide
  have hrejected := hprefix.sublist.count_le ObservationKind.rejected
  have hdropped := hprefix.sublist.count_le ObservationKind.droppedOff
  have hwhole' := hends whole hwhole
  omega

/-- The request of a sound reading is told to be rejected if the rejection takes effect. -/
theorem Reading.Sound.rejectionsOf_calls {x : Reading} (h : x.Sound) (id : RequestId) :
    rejectionsOf id x.calls = if x.Strikes id then observed x.calls else [] := by
  rcases h with hnone | ⟨o, traveler, hcalls, hkind, hrequest⟩
  · rw [if_neg fun hstrikes => hstrikes.2 hnone, hnone]
    rfl
  · by_cases hid : x.rejection.request = id <;>
      simp [Strikes, hcalls, rejectionsOf, observed, Call.observation?, hkind, hrequest, hid]

theorem rejectionsOf_flatMap {readings : List Reading} (h : ∀ x ∈ readings, x.Sound)
    (id : RequestId) : rejectionsOf id (readings.flatMap (·.calls)) =
      (readings.filter (Reading.Strikes id)).flatMap fun x => observed x.calls := by
  induction readings with
  | nil => rfl
  | cons x readings ih =>
    have hrest := ih fun y hy => h y (List.mem_cons_of_mem x hy)
    rw [List.flatMap_cons, rejectionsOf_append, (h x List.mem_cons_self).rejectionsOf_calls, hrest,
      List.filter_cons]
    by_cases hstrikes : x.Strikes id <;> simp [hstrikes]

/-- Of a sound reading that strikes one observation is told. -/
private theorem length_flatMap_strikes {readings : List Reading} (h : ∀ x ∈ readings, x.Sound)
    (id : RequestId) :
    ((readings.filter (Reading.Strikes id)).flatMap fun x => observed x.calls).length =
      (readings.filter (Reading.Strikes id)).length := by
  have hone : ∀ x ∈ readings.filter (Reading.Strikes id), (observed x.calls).length = 1 := by
    intro x hx
    obtain ⟨hmem, hstrikes⟩ := List.mem_filter.1 hx
    rcases h x hmem with hnone | ⟨o, traveler, hcalls, -⟩
    · exact absurd hnone (of_decide_eq_true hstrikes).2
    · rw [hcalls]
      rfl
  rw [List.length_flatMap, List.map_congr_left hone]
  simp

/-- The time of a step. -/
def Operation.stepTime? : Operation → Option Time
  | .step now => some now
  | _ => none

/-- The times of the steps among calls. -/
def stepTimes (operations : List Operation) : List Time := operations.filterMap (·.stepTime?)

namespace Service

/-- What is read of rejections that are applied one after the other. -/
def readAll (now : Time) : Service → List Rejection → List Reading
  | _, [] => []
  | s, r :: rest =>
    let first := s.applyRejection now r
    { rejection := r, booked := s.isBooked r.request, calls := first.2 } :: readAll now first.1 rest

/-- What a call reads. Only a step reads rejections: those at the front of the mailbox that are
older than the present. -/
def read (s : Service) : Operation → List Reading
  | .step now => readAll now { s with mailbox := s.mailbox.dropWhile (·.time < now) }
      (s.mailbox.takeWhile (·.time < now))
  | _ => []

/-- What the calls on a service read, in order. -/
def readings (s : Service) : List Operation → List Reading
  | [] => []
  | o :: rest => s.read o ++ (s.perform o).service.readings rest

variable {s : Service} {now : Time} {id : RequestId} {r : Rejection}

/-! ## One rejection -/

/-- A rejection takes effect on whoever is bound to its request. -/
theorem calls_applyRejection (s : Service) (now : Time) (r : Rejection) :
    (s.applyRejection now r).2 = match s.bound.find? r.request with
      | some b => [
          .observe { s.observation now .rejected r.request b.person with cause := some r.cause },
          .abort b.traveler now]
      | none => [] := by
  unfold applyRejection
  cases hb : s.bound.find? r.request with
  | some b => simp [hb, observation]
  | none =>
    simp only [hb]
    split <;> rfl

/-- Nobody is bound to a request once its rejection was applied. -/
theorem bound_applyRejection (s : Service) (now : Time) (r : Rejection) (id : RequestId) :
    (s.applyRejection now r).1.bound.find? id =
      if r.request = id then none else s.bound.find? id := by
  unfold applyRejection
  cases hb : s.bound.find? r.request with
  | some b => simp [hb]
  | none =>
    have hnone : s.bound.find? id = if r.request = id then none else s.bound.find? id := by
      split
      · next hid => rw [← hid, hb]
      · rfl
    simp only [hb]
    split <;> exact hnone

theorem isBooked_applyRejection (s : Service) (now : Time) (r : Rejection) (id : RequestId) :
    (s.applyRejection now r).1.isBooked id = s.isBooked id := by
  obtain ⟨bound, waitingStops, parked, heq⟩ := s.exists_applyRejection now r
  rw [heq]
  rfl

/-- The rejection of a booking is parked in place of any that was. -/
theorem parked_applyRejection (s : Service) (now : Time) (r : Rejection) (id : RequestId) :
    (s.applyRejection now r).1.parked.find? id =
      if r.request = id ∧ s.bound.find? id = none ∧ s.isBooked id then some r
      else s.parked.find? id := by
  unfold applyRejection
  cases hb : s.bound.find? r.request with
  | some b =>
    have hnot : ¬ (r.request = id ∧ s.bound.find? id = none ∧ s.isBooked id) := by
      rintro ⟨rfl, hnone, -⟩
      rw [hb] at hnone
      cases hnone
    simp [hb, hnot]
  | none =>
    simp only [hb]
    by_cases hid : r.request = id
    · subst hid
      by_cases hbooked : s.isBooked r.request
      · have hbooked' : ({ s with waitingStops := s.waitingStops.erase r.request }).isBooked
            r.request = true := hbooked
        simp [hb, hbooked, hbooked']
      · have hbooked' : ({ s with waitingStops := s.waitingStops.erase r.request }).isBooked
            r.request = false := by simpa [isBooked] using hbooked
        simp [hbooked, hbooked']
    · split <;> simp [hid]

/-! ## Several rejections -/

/-- What comes of rejections is what comes of each. -/
private theorem calls_applyRejections (now : Time) (s : Service) (due : List Rejection) :
    (applyRejections now s due).calls = (readAll now s due).flatMap (·.calls) := by
  induction due generalizing s with
  | nil => rfl
  | cons r due ih => exact congrArg ((s.applyRejection now r).2 ++ ·) (ih _)

/-- The calls of a step are those of what it reads. -/
theorem calls_step (s : Service) (now : Time) :
    (s.step now).calls = (s.read (.step now)).flatMap (·.calls) :=
  calls_applyRejections now _ _

theorem readAll_append (now : Time) (s : Service) (due more : List Rejection) :
    readAll now s (due ++ more) =
      readAll now s due ++ readAll now (applyRejections now s due).service more := by
  induction due generalizing s with
  | nil => rfl
  | cons r due ih => exact congrArg (_ :: ·) (ih _)

/-- Rejections of other requests leave the binding to a request alone. -/
theorem bound_applyRejections_of_ne {due : List Rejection} (hne : ∀ q ∈ due, q.request ≠ id)
    (s : Service) (now : Time) :
    (applyRejections now s due).service.bound.find? id = s.bound.find? id := by
  induction due generalizing s with
  | nil => rfl
  | cons q due ih =>
    have hrest := ih (fun q hq => hne q (List.mem_cons_of_mem _ hq)) (s.applyRejection now q).1
    rwa [bound_applyRejection, if_neg (hne q List.mem_cons_self)] at hrest

theorem isBooked_applyRejections (now : Time) (s : Service) (due : List Rejection)
    (id : RequestId) : (applyRejections now s due).service.isBooked id = s.isBooked id := by
  obtain ⟨bound, waitingStops, parked, heq⟩ := exists_applyRejections now s due
  rw [heq]
  rfl

/-- While nobody is bound to a request, the last rejection that is read while the request is booked
is the one that is parked. -/
theorem parked_applyRejections (hnone : s.bound.find? id = none) (now : Time)
    (due : List Rejection) : (applyRejections now s due).service.parked.find? id =
      (Reading.held id (readAll now s due)).or (s.parked.find? id) := by
  induction due generalizing s with
  | nil => rfl
  | cons r due ih =>
    have hnone' : (s.applyRejection now r).1.bound.find? id = none := by
      rw [bound_applyRejection, hnone, ite_self]
    let first : Reading := ⟨r, s.isBooked r.request, (s.applyRejection now r).2⟩
    have hfirst : (s.applyRejection now r).1.parked.find? id =
        (Reading.held id [first]).or (s.parked.find? id) := by
      rw [parked_applyRejection]
      by_cases hid : r.request = id
      · by_cases hbooked : s.isBooked id <;>
          simp [Reading.held, first, hid, hnone, hbooked]
      · simp [Reading.held, first, hid]
    have hread : readAll now s (r :: due) =
        [first] ++ readAll now (s.applyRejection now r).1 due := rfl
    rw [hread, Reading.held_append, Option.or_assoc, ← hfirst]
    exact ih hnone'

/-- What is parked was parked before or is read now. -/
theorem mem_due_of_parked {due : List Rejection}
    (h : (applyRejections now s due).service.parked.find? id = some r) :
    s.parked.find? id = some r ∨ r ∈ due ∧ r.request = id ∧ s.isBooked id := by
  induction due generalizing s with
  | nil => exact .inl h
  | cons q due ih =>
    rcases ih (s := (s.applyRejection now q).1) h with hfirst | ⟨hmem, hid, hbooked⟩
    · rw [parked_applyRejection] at hfirst
      split at hfirst
      · next hq =>
        obtain rfl := Option.some.inj hfirst
        exact .inr ⟨List.mem_cons_self, hq.1, hq.2.2⟩
      · exact .inl hfirst
    · rw [isBooked_applyRejection] at hbooked
      exact .inr ⟨List.mem_cons_of_mem q hmem, hid, hbooked⟩

/-! ## Calls in a row -/

theorem read_eq_nil {o : Operation} (ho : o.stepTime? = none) : s.read o = [] := by
  cases o with
  | step now => cases ho
  | depart | await | pickUp | dropOff | reject | book => rfl

theorem readings_append (s : Service) (os os' : List Operation) :
    s.readings (os ++ os') = s.readings os ++ (s.run os).service.readings os' := by
  induction os generalizing s with
  | nil => rfl
  | cons o os ih =>
    rw [List.cons_append, readings, readings, ih, List.append_assoc]
    rfl

/-! ## What is told of rejections -/

/-- What comes of rejections that are read is sound. -/
theorem sound_of_mem_readAll {x : Reading} {due : List Rejection} (hx : x ∈ readAll now s due) :
    x.Sound := by
  induction due generalizing s with
  | nil => cases hx
  | cons r due ih =>
    rcases List.mem_cons.1 hx with rfl | hx
    · unfold Reading.Sound
      simp only [calls_applyRejection]
      cases s.bound.find? r.request with
      | none => exact .inl rfl
      | some b => exact .inr ⟨_, b.traveler, rfl, rfl, rfl⟩
    · exact ih hx

theorem sound_of_mem_read {x : Reading} {o : Operation} (hx : x ∈ s.read o) : x.Sound := by
  cases o with
  | step now => exact sound_of_mem_readAll hx
  | depart | await | pickUp | dropOff | reject | book => cases hx

theorem sound_of_mem_readings {x : Reading} {operations : List Operation}
    (hx : x ∈ s.readings operations) : x.Sound := by
  induction operations generalizing s with
  | nil => cases hx
  | cons o rest ih => exact (List.mem_append.1 hx).elim sound_of_mem_read ih

/-- Where no rejection is observed, no journey is aborted. -/
theorem Effect.filter_rejects {occasion : Occasion} {t : Turn} (h : s.Effect occasion t)
    (hkind : ∀ o ∈ observed t.calls, o.kind ≠ .rejected) : t.calls.filter (·.rejects) = [] := by
  cases h with
  | quiet hbound hcalls => rw [hcalls, List.filter_nil]
  | bound o b ready hwho hup hwaiting hstatus hbound hcalls hready =>
    rw [hcalls, List.filter_eq_nil_iff]
    intro c hc
    rcases List.mem_cons.1 hc with rfl | hc
    · simp [Call.rejects, hwaiting]
    · obtain ⟨stop, now, rfl⟩ := hready c hc
      simp [Call.rejects]
  | declined o traveler hwho hup hnot hwaiting hbound hcalls =>
    simp [hcalls, Call.rejects, hwaiting]
  | boarded o b vehicle hb hstatus hpicked hvehicle hbound hcalls =>
    simp [hcalls, Call.rejects, hpicked]
  | alighted o b vehicle hb hdropped hvehicle hbound hcalls =>
    simp [hcalls, Call.rejects, hdropped]
  | aborted o b hb hrejected hbound hcalls =>
    exact absurd hrejected (hkind o (by simp [hcalls]))

/-- A call tells of the rejections that it reads, and of no others. Outside of steps one
observation, which is no rejection, is all that is made. -/
theorem Orderly.filter_rejects_perform (h : s.Orderly) (o : Operation) :
    (s.perform o).calls.filter (·.rejects) = (s.read o).flatMap (·.calls) := by
  have hquiet {occasion : Occasion} {t : Turn} (ha : s.Act o.time occasion t) {o' : Observation}
      (hone : observed t.calls = [o']) (hkind : o'.kind ≠ .rejected) :
      t.calls.filter (·.rejects) = [] := by
    refine (h.effect ha).filter_rejects fun o'' ho'' => ?_
    rw [hone, List.mem_singleton] at ho''
    rwa [ho'']
  cases o with
  | depart now who link =>
    simp only [perform]
    split
    · next t ht =>
      obtain ⟨o', ready, hcalls, hkind, hready⟩ := calls_depart ht
      have hone : observed t.calls = [o'] := by rw [hcalls, observed_cons_observe, hready]
      exact hquiet (act_depart ht) hone (by rw [hkind]; decide)
    · rfl
  | pickUp vehicle id now =>
    simp only [perform]
    cases ht : s.pickUp vehicle id now with
    | none => rfl
    | some t =>
      obtain ⟨o', hone, hkind, -⟩ := observed_pickUp ht
      have hact : s.Act now .other t := act_pickUp ht
      exact hquiet hact hone (by rw [hkind]; decide)
  | dropOff vehicle id now =>
    simp only [perform]
    split
    · next traveler t ht =>
      obtain ⟨o', hone, hkind, -⟩ := observed_dropOff ht
      have hact : s.Act now .other t := act_dropOff ht
      exact hquiet hact hone (by rw [hkind]; decide)
    · rfl
  | await | reject => rfl
  | book now person planned =>
    simp only [perform]
    split
    · next name t ht =>
      rcases book_eq_ok ht with ⟨-, rfl⟩ | ⟨desk, -, ⟨-, rfl⟩ | ⟨r, -, -, -, -, rfl⟩⟩ <;> rfl
    · rfl
  | step now =>
    have hall {x : Reading} (hx : x ∈ s.read (.step now)) :
        x.calls.filter (·.rejects) = x.calls := by
      rcases sound_of_mem_read hx with hnone | ⟨o, traveler, hcalls, hkind, -⟩
      · rw [hnone, List.filter_nil]
      · simp [hcalls, Call.rejects, hkind]
    have hcalls : (s.perform (.step now)).calls = (s.read (.step now)).flatMap (·.calls) :=
      s.calls_step now
    rw [hcalls, List.filter_flatMap]
    exact List.flatMap_congr fun x => hall

/-- In a run nothing tells of a rejection or aborts anybody but what is read. -/
theorem Recorded.filter_rejects_run {gone : List (RequestId × EntityId)} {told : List Call}
    (h : s.Recorded gone told) (operations : List Operation) :
    (s.run operations).calls.filter (·.rejects) = (s.readings operations).flatMap (·.calls) := by
  induction operations generalizing s gone told with
  | nil => rfl
  | cons o rest ih =>
    rw [Service.run, Turn.andThen, readings, List.filter_append, List.flatMap_append,
      h.orderly.filter_rejects_perform, ih (h.acts (s.acts_perform o))]

/-- A request is told to be rejected each time a rejection of it takes effect. -/
theorem Recorded.rejectionsOf_run {gone : List (RequestId × EntityId)} {told : List Call}
    (h : s.Recorded gone told) (operations : List Operation) (id : RequestId) :
    rejectionsOf id (s.run operations).calls =
      ((s.readings operations).filter (Reading.Strikes id)).flatMap fun x => observed x.calls := by
  rw [← rejectionsOf_filter, h.filter_rejects_run,
    rejectionsOf_flatMap fun x => sound_of_mem_readings]

/-- One rejection of a request takes effect at most, and none of a request whose passenger was
dropped off. -/
theorem Recorded.length_strikes_le (h : s.Recorded [] []) (operations : List Operation)
    (id : RequestId) : ((s.readings operations).filter (Reading.Strikes id)).length +
      (stages id (s.run operations).calls).count .droppedOff ≤ 1 := by
  have hlength : ((s.readings operations).filter (Reading.Strikes id)).length =
      (stages id (s.run operations).calls).count .rejected := by
    rw [count_rejected, h.rejectionsOf_run, length_flatMap_strikes fun x => sound_of_mem_readings]
  rw [hlength]
  exact ((h.run operations).ride id).count_le

end Service

end DialARide
