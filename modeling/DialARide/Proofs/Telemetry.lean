import DialARide.Proofs.Ride.Reading
import DialARide.Telemetry
import Mathlib.Data.List.Forall2
import Mathlib.Data.List.Induction

/-!
# What is put down of interleaved rides

The observations of many requests arrive in any order among each other, and what is kept of a
request until it is dropped off is made of its own observations alone. If those of each request are
the observations of one ride, in the order of their times, then the completed rides are the ones
that were dropped off, in that order, each with the times at which its own stages were observed.
-/

namespace DialARide

/-- The number of observations of a kind. -/
def Counts.of (c : Counts) : ObservationKind → Nat
  | .waiting => c.waiting
  | .pickedUp => c.pickedUp
  | .droppedOff => c.droppedOff
  | .rejected => c.rejected

/-- The observations of each request are those of one ride, in the order of their times. -/
def RidesInterleaved (log : List Observation) : Prop :=
  ∀ id, IsRide ((log.filter (·.request = id)).map (·.kind)) ∧
    (log.filter (·.request = id)).Pairwise fun a b => a.time ≤ b.time

/-- A request that nothing was observed of has the empty course, so only those of the log matter. -/
theorem ridesInterleaved_iff {log : List Observation} : RidesInterleaved log ↔
    ∀ id ∈ log.map (·.request), IsRide ((log.filter (·.request = id)).map (·.kind)) ∧
      (log.filter (·.request = id)).Pairwise fun a b => a.time ≤ b.time := by
  refine ⟨fun h id _ => h id, fun h id => ?_⟩
  by_cases hid : id ∈ log.map (·.request)
  · exact h id hid
  · have hnone : log.filter (·.request = id) = [] := by
      refine List.filter_eq_nil_iff.2 fun o ho heq => hid ?_
      exact of_decide_eq_true heq ▸ List.mem_map_of_mem ho
    rw [hnone]
    exact ⟨by decide, .nil⟩

instance : DecidablePred RidesInterleaved := fun _ => decidable_of_iff _ ridesInterleaved_iff.symm

/-- When a stage of a request was observed. -/
def timeOf? (log : List Observation) (id : RequestId) (kind : ObservationKind) : Option Time :=
  ((log.filter (·.request = id)).find? (·.kind = kind)).map (·.time)

/-- A ride is the one that ends with an observation, as a log tells it. Its times follow one upon
the other, so the waiting time and the time on board are differences that lose nothing. -/
structure Ride.ToldBy (log : List Observation) (o : Observation) (r : Ride) : Prop where
  request : r.request = o.request
  person : r.person = o.person
  mode : r.mode = o.mode
  vehicle : r.vehicle = o.vehicle
  requestedAt : timeOf? log o.request .waiting = some r.requestedAt
  pickedUpAt : r.pickedUpAt = (timeOf? log o.request .pickedUp).getD r.requestedAt
  droppedOffAt : r.droppedOffAt = o.time
  waited : r.requestedAt ≤ r.pickedUpAt
  rode : r.pickedUpAt ≤ r.droppedOffAt
  span : r.waitTime.toNat + r.duration.toNat = r.droppedOffAt.toNat - r.requestedAt.toNat

/-- Times that follow one upon the other add up. -/
theorem Ride.span_of_le {r : Ride} (hwaited : r.requestedAt ≤ r.pickedUpAt)
    (hrode : r.pickedUpAt ≤ r.droppedOffAt) :
    r.waitTime.toNat + r.duration.toNat = r.droppedOffAt.toNat - r.requestedAt.toNat := by
  rw [UInt64.le_iff_toNat_le] at hwaited hrode
  rw [waitTime, duration, Time.toNat_minus, Time.toNat_minus]
  omega

/-! ## The course of a ride -/

/-- Nothing follows when a passenger is dropped off, who waited before and may have been picked
up. -/
theorem IsRide.split_of_droppedOff {l more : List ObservationKind}
    (h : IsRide (l ++ .droppedOff :: more)) :
    (l = [.waiting] ∨ l = [.waiting, .pickedUp]) ∧ more = [] := by
  obtain ⟨whole, hwhole, hprefix⟩ := h
  simp only [rideCourses, List.mem_cons, List.not_mem_nil, or_false] at hwhole
  rcases hwhole with rfl | rfl | rfl | rfl <;>
    rcases l with _ | ⟨a, _ | ⟨b, _ | ⟨c, l⟩⟩⟩ <;>
    simp_all [List.cons_append, List.cons_prefix_cons]

/-- What comes before and behind the observation that ends a ride, of the same request: somebody
waits, and may be picked up later. -/
theorem RidesInterleaved.own_of_droppedOff {before after : List Observation} {o : Observation}
    (h : RidesInterleaved (before ++ o :: after)) (hkind : o.kind = .droppedOff) :
    ∃ w boarding, before.filter (·.request = o.request) = w :: boarding ∧ w.kind = .waiting ∧
      (boarding = [] ∨ ∃ p, boarding = [p] ∧ p.kind = .pickedUp) ∧
      after.filter (·.request = o.request) = [] := by
  obtain ⟨hride, -⟩ := h o.request
  rw [List.filter_append, List.filter_cons_of_pos (by simp), List.map_append, List.map_cons,
    hkind] at hride
  obtain ⟨hbefore, hafter⟩ := hride.split_of_droppedOff
  rw [List.map_eq_nil_iff] at hafter
  rcases hbefore with hbefore | hbefore
  · obtain ⟨w, hw, hwaiting⟩ := List.map_eq_singleton_iff.1 hbefore
    exact ⟨w, [], hw, hwaiting, .inl rfl, hafter⟩
  · obtain ⟨w, boarding, hw, hwaiting, hrest⟩ := List.map_eq_cons_iff.1 hbefore
    obtain ⟨p, rfl, hpicked⟩ := List.map_eq_singleton_iff.1 hrest
    exact ⟨w, [p], hw, hwaiting, .inr ⟨p, rfl, hpicked⟩, hafter⟩

/-! ## What is kept of a request -/

/-- The progress of a request after one more observation of it. -/
def RideProgress.next? (p : Option RideProgress) (o : Observation) : Option RideProgress :=
  match o.kind with
  | .waiting => some { requestedAt := o.time }
  | .pickedUp => p.map ({ · with pickedUpAt := some o.time })
  | .droppedOff | .rejected => none

namespace Telemetry

/-- What is put down of a list of observations. -/
def ofLog (log : List Observation) : Telemetry := log.foldl record {}

theorem ofLog_concat (log : List Observation) (o : Observation) :
    ofLog (log ++ [o]) = (ofLog log).record o := by
  rw [ofLog, List.foldl_append]
  rfl

theorem observations_foldl_record (t : Telemetry) (log : List Observation) :
    (log.foldl record t).observations = t.observations ++ log := by
  induction log generalizing t with
  | nil => exact (List.append_nil _).symm
  | cons o log ih =>
    rw [List.foldl_cons, ih, record, List.append_assoc]
    rfl

theorem of_record (t : Telemetry) (o : Observation) (k : ObservationKind) :
    (t.record o).counts.of k = t.counts.of k + if o.kind = k then 1 else 0 := by
  cases ho : o.kind <;> cases k <;> simp [record, Counts.add, Counts.of, ho]

/-- What is put down of a kind is counted. -/
theorem of_foldl_record (t : Telemetry) (log : List Observation) (k : ObservationKind) :
    (log.foldl record t).counts.of k = t.counts.of k + log.countP (·.kind = k) := by
  induction log generalizing t with
  | nil => rfl
  | cons o log ih =>
    rw [List.foldl_cons, ih, of_record, List.countP_cons]
    simp only [decide_eq_true_eq]
    omega

/-- An observation changes nothing about rides of other requests. -/
theorem find?_progress_record (t : Telemetry) {o : Observation} {id : RequestId}
    (h : o.request ≠ id) : (t.record o).progress.find? id = t.progress.find? id := by
  show (t.follow o).progress.find? id = _
  unfold follow
  split
  · simp [h]
  · simp [h]
  · split
    · simp [h]
    · rfl
  · simp [h]

private theorem find?_progress_record_self (t : Telemetry) (o : Observation) :
    (t.record o).progress.find? o.request =
      RideProgress.next? (t.progress.find? o.request) o := by
  show (t.follow o).progress.find? o.request = _
  unfold follow RideProgress.next?
  cases o.kind with
  | waiting | pickedUp | rejected => simp
  | droppedOff =>
    cases hp : t.progress.find? o.request with
    | none => simp [hp]
    | some p => simp

/-- The progress of a request is told by its own observations. -/
theorem find?_progress_ofLog (log : List Observation) (id : RequestId) :
    (ofLog log).progress.find? id =
      (log.filter (·.request = id)).foldl RideProgress.next? none := by
  induction log using List.reverseRecOn with
  | nil => rfl
  | append_singleton log o ih =>
    rw [ofLog_concat, List.filter_append, List.foldl_append, ← ih]
    by_cases hid : o.request = id
    · subst hid
      rw [find?_progress_record_self, List.filter_cons_of_pos (by simp)]
      rfl
    · rw [find?_progress_record _ hid, List.filter_cons_of_neg (by simpa using hid)]
      rfl

/-- A ride is completed just when a request that is under way is dropped off. -/
private theorem rides_record (t : Telemetry) (o : Observation) : (t.record o).rides =
    t.rides ++ if o.kind = .droppedOff then
      ((t.progress.find? o.request).map (completed o)).toList else [] := by
  show (t.follow o).rides = _
  unfold follow
  split
  · next hkind => simp [hkind]
  · next hkind => simp [hkind]
  · next hkind =>
    split
    · next p hp => simp [hkind, hp]
    · next hnone => simp [hkind, hnone]
  · next hkind => simp [hkind]

/-! ## Completed rides -/

variable {log before after : List Observation} {o : Observation}

/-- When a passenger is dropped off, the ride that is under way by then is the one that the whole
log tells. -/
theorem toldBy_of_droppedOff (h : RidesInterleaved (before ++ o :: after))
    (hkind : o.kind = .droppedOff) :
    ∃ p, (ofLog before).progress.find? o.request = some p ∧
      (completed o p).ToldBy (before ++ o :: after) o := by
  obtain ⟨w, boarding, hbefore, hwaiting, hboarding, hafter⟩ := h.own_of_droppedOff hkind
  obtain ⟨-, htimes⟩ := h o.request
  have hown : (before ++ o :: after).filter (·.request = o.request) = w :: (boarding ++ [o]) := by
    rw [List.filter_append, List.filter_cons_of_pos (by simp), hbefore, hafter, List.cons_append]
  rw [hown] at htimes
  rw [find?_progress_ofLog, hbefore]
  have hrequested : timeOf? (before ++ o :: after) o.request .waiting = some w.time := by
    simp [timeOf?, hown, hwaiting]
  rcases hboarding with rfl | ⟨p, rfl, hpicked⟩
  · have hpickedUp : timeOf? (before ++ o :: after) o.request .pickedUp = none := by
      simp [timeOf?, hown, hwaiting, hkind]
    have hlate : w.time ≤ o.time := by simpa using htimes
    have hwaited : w.time ≤ w.time := UInt64.le_refl _
    refine ⟨{ requestedAt := w.time }, by simp [RideProgress.next?, hwaiting], rfl, rfl, rfl, rfl,
      hrequested, by rw [hpickedUp]; rfl, rfl, hwaited, hlate, Ride.span_of_le hwaited hlate⟩
  · have hpickedUp : timeOf? (before ++ o :: after) o.request .pickedUp = some p.time := by
      simp [timeOf?, hown, hwaiting, hpicked]
    obtain ⟨⟨hwaited, -⟩, hlate⟩ : (w.time ≤ p.time ∧ w.time ≤ o.time) ∧ p.time ≤ o.time := by
      simpa using htimes
    refine ⟨{ requestedAt := w.time, pickedUpAt := some p.time },
      by simp [RideProgress.next?, hwaiting, hpicked], rfl, rfl, rfl, rfl, hrequested,
      by rw [hpickedUp]; rfl, rfl, hwaited, hlate, Ride.span_of_le hwaited hlate⟩

/-- At any point of a log the completed rides are those dropped off by then, as the whole log tells
them. -/
theorem rides_ofLog (h : RidesInterleaved (before ++ after)) :
    List.Forall₂ (Ride.ToldBy (before ++ after)) (before.filter (·.kind = .droppedOff))
      (ofLog before).rides := by
  induction before using List.reverseRecOn generalizing after with
  | nil => exact .nil
  | append_singleton before o ih =>
    rw [List.append_assoc, List.singleton_append] at h ⊢
    rw [ofLog_concat, rides_record, List.filter_append]
    refine List.rel_append (ih h) ?_
    by_cases hkind : o.kind = .droppedOff
    · obtain ⟨p, hp, htold⟩ := toldBy_of_droppedOff h hkind
      rw [List.filter_cons_of_pos (by simpa using hkind), if_pos hkind, hp]
      exact .cons htold .nil
    · rw [List.filter_cons_of_neg (by simpa using hkind), if_neg hkind]
      exact .nil

/-- Whatever rides are interleaved, one ride is completed for each passenger who was dropped off, in
that order and as the log tells it, none for a request that was rejected, and the observations of
each kind are counted. -/
theorem rides_completed (h : RidesInterleaved log) :
    List.Forall₂ (Ride.ToldBy log) (log.filter (·.kind = .droppedOff)) (ofLog log).rides ∧
    (∀ o ∈ log, o.kind = .rejected → ∀ r ∈ (ofLog log).rides, r.request ≠ o.request) ∧
    ∀ kind, (ofLog log).counts.of kind = log.countP (·.kind = kind) := by
  have hrides : List.Forall₂ (Ride.ToldBy log) (log.filter (·.kind = .droppedOff))
      (ofLog log).rides := by
    have hwhole : RidesInterleaved (log ++ []) := by simpa using h
    simpa using rides_ofLog hwhole
  refine ⟨hrides, fun o ho hrejected r hr hsame => ?_, fun kind => ?_⟩
  · obtain ⟨d, hd, htold⟩ : ∃ d ∈ log.filter (·.kind = .droppedOff), r.ToldBy log d := by
      obtain ⟨i, hi, rfl⟩ := List.getElem_of_mem hr
      have hlength := hrides.length_eq
      exact ⟨_, List.getElem_mem (hlength ▸ hi), hrides.get (hlength ▸ hi) hi⟩
    obtain ⟨hd, hdropped⟩ := List.mem_filter.1 hd
    have hown (x : Observation) (hx : x ∈ log) (hrequest : x.request = o.request) :
        x.kind ∈ (log.filter (·.request = o.request)).map (·.kind) :=
      List.mem_map_of_mem (List.mem_filter.2 ⟨hx, by simpa using hrequest⟩)
    have hends := (h o.request).1.count_le
    have hone := List.count_pos_iff.2 (hrejected ▸ hown o ho rfl)
    have hother := List.count_pos_iff.2
      (of_decide_eq_true hdropped ▸ hown d hd (htold.request.symm.trans hsame))
    omega
  · rw [ofLog, of_foldl_record]
    cases kind <;> exact Nat.zero_add _

/-- Of three rides that cross one another the second is over first, without a stop where its
passenger was picked up, and the third is rejected. -/
theorem crossing_rides_completed :
    let seen (time : Time) (kind : ObservationKind) (id : RequestId) (vehicle : Option VehicleId) :
        Observation := ⟨time, kind, ⟨"drt"⟩, id, ⟨"anna"⟩, vehicle, none⟩
    let first := seen 60 .droppedOff ⟨"drt_0"⟩ (some ⟨"bus"⟩)
    let second := seen 40 .droppedOff ⟨"drt_1"⟩ (some ⟨"van"⟩)
    let log := [seen 10 .waiting ⟨"drt_0"⟩ none, seen 20 .waiting ⟨"drt_1"⟩ none,
      seen 30 .pickedUp ⟨"drt_0"⟩ (some ⟨"bus"⟩), seen 30 .waiting ⟨"drt_2"⟩ none, second,
      seen 50 .rejected ⟨"drt_2"⟩ none, first]
    RidesInterleaved log ∧ (ofLog log).rides =
      [⟨⟨"drt_1"⟩, ⟨"anna"⟩, ⟨"drt"⟩, some ⟨"van"⟩, 20, 20, 40⟩,
        ⟨⟨"drt_0"⟩, ⟨"anna"⟩, ⟨"drt"⟩, some ⟨"bus"⟩, 10, 30, 60⟩] ∧
      List.Forall₂ (Ride.ToldBy log) [second, first] (ofLog log).rides ∧
      (∀ r ∈ (ofLog log).rides, r.request ≠ ⟨"drt_2"⟩) ∧
      (ofLog log).counts.of .waiting = 3 := by
  intro seen first second log
  have hlog : RidesInterleaved log := by decide +kernel
  have hdropped : log.filter (·.kind = .droppedOff) = [second, first] := by decide +kernel
  obtain ⟨hrides, hrejected, hcounts⟩ := rides_completed hlog
  exact ⟨hlog, by decide +kernel, hdropped ▸ hrides,
    hrejected (seen 50 .rejected ⟨"drt_2"⟩ none) (by decide +kernel) rfl, hcounts .waiting⟩

end Telemetry

end DialARide
