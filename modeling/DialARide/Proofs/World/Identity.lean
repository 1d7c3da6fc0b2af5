import DialARide.Proofs.Ride.Numbering
import DialARide.Proofs.World.Reach

/-!
# Requests of a scenario are told apart by name

The modes of a scenario are different, and no request has been made when it is set up. Hence the
names of all requests that are made in it are different, unless it serves a mode that is named like
the bookings of the booked one.
-/

namespace DialARide

namespace Setup

open Services

variable {s : Setup} {w : World}

/-- A service that is set up has given no name away. -/
theorem issued_service (s : Setup) (rule : ModeRule) : (s.service rule).issued = [] := by
  by_cases hbooked : s.bookedMode = some rule.mode <;>
    simp [service, hbooked, Service.withDesk, Service.issued, Service.issuedNow,
      Service.issuedAhead]

/-- A service that is set up takes bookings only if its mode does. -/
theorem bookedMode_of_desk {rule : ModeRule} (h : (s.service rule).desk.isSome) :
    s.bookedMode = some rule.mode := by
  by_contra hbooked
  simp [service, hbooked] at h

theorem numbered_build (h : s.build = .ok w) :
    w.services.Numbered s.bookedMode (s.config.modes.map (·.mode)) ∧ w.services.issued = [] ∧
      w.services.submitted = [] := by
  obtain ⟨-, hmembers, -, -⟩ := build_eq_ok h
  have hservice {u : Service} (hu : u ∈ w.services.members) : ∃ rule, u = s.service rule := by
    rw [hmembers] at hu
    obtain ⟨rule, -, rfl⟩ := List.mem_map.1 hu
    exact ⟨rule, rfl⟩
  refine ⟨⟨?_, fun u hu => ?_, fun u hu hdesk => ?_⟩, ?_, ?_⟩
  · rw [hmembers, List.map_map]
    exact List.map_congr_left fun rule _ => (s.service_terms rule).2.1
  · obtain ⟨rule, rfl⟩ := hservice hu
    exact (s.vacant_service rule).1.naming
  · obtain ⟨rule, rfl⟩ := hservice hu
    rw [(s.service_terms rule).2.1]
    exact bookedMode_of_desk hdesk
  · refine List.flatMap_eq_nil_iff.2 fun u hu => ?_
    obtain ⟨rule, rfl⟩ := hservice hu
    exact s.issued_service rule
  · unfold build at h
    split at h <;> cases h
    rfl

/-- Whatever is asked of the services of a scenario: what they submit are requests that were made,
the desk where the scenario books is the one of the booked mode, and the requests that are made have
different names unless bookings are made for one mode and departures for the mode that is named like
these bookings. While no mode that is served is named like the bookings, no two requests have one
name. -/
theorem names_distinct_iff (h : s.build = .ok w) (commands : List Command) :
    let created := w.services.created commands
    let services := (w.services.carryOutAll commands).2
    services.submitted.Sublist (created.map (·.2)) ∧
      (∀ mode ∈ s.bookedMode,
        services.deskPosition? mode = services.members.findIdx? (·.desk.isSome)) ∧
      ((created.map (·.2.id)).Nodup ↔ ∀ p ∈ created, ∀ q ∈ created,
        p.1.operation.isBooking → q.1.operation.isDeparture → q.2.mode ≠ p.2.mode.prebooked) ∧
      ((∀ mode ∈ s.bookedMode, mode.prebooked ∉ s.config.modes.map (·.mode)) →
        (created.map (·.2.id)).Nodup) := by
  intro created services
  obtain ⟨hfirst, hnone, hsubmitted⟩ := numbered_build h
  have hmodes := ((Config.fault?_eq_none_iff _).1 (build_eq_ok h).1).2.1
  have hiff := hfirst.nodup_created_iff hmodes hnone commands
  obtain ⟨hend, hissued⟩ := hfirst.carryOutAll commands
  have hmode {p : Command × Request} (hp : p ∈ created) := hend.mode_of_mem_issued
    (hissued.mem_iff.2 (List.mem_append_left _ (List.mem_map_of_mem hp)))
  refine ⟨?_, fun mode hbooked => ?_, hiff, fun hapart => ?_⟩
  · have hsub := w.services.submitted_sublist_created commands
    rwa [hsubmitted, List.nil_append] at hsub
  · rw [Option.mem_def.1 hbooked] at hend
    exact hend.deskPosition?_eq
  · refine hiff.2 fun p hp q hq hbooking _ hnamed => ?_
    exact hapart p.2.mode ((hmode hp).2 hbooking) (hnamed ▸ (hmode hq).1)

/-- A scenario with bookings for one mode, and with another mode. -/
def besides (other : ModeId) : Setup :=
  { commute with
    config := { modes := [⟨⟨"drt"⟩, true⟩, ⟨other, true⟩], stepInterval := 60 }
    bookedMode := some ⟨"drt"⟩ }

/-- A trip by the booked mode is booked, and somebody departs by the other mode. -/
def bothTravel (other : ModeId) : List Command :=
  [.book ⟨"drt"⟩ 0 ⟨"alice"⟩ ⟨0, ⟨"drt"⟩, ⟨"home"⟩, ⟨"work"⟩, 100, none⟩,
    .depart 10 ⟨1, ⟨"bob"⟩, other, some ⟨0, other, ⟨"work"⟩, ⟨"home"⟩, 10, none⟩⟩ ⟨"work"⟩]

/-- The booking and the departure have different names, as the other mode is a line of buses. -/
theorem booking_and_bus_differ : ∃ w, (besides ⟨"bus"⟩).build = .ok w ∧
    (w.services.created (bothTravel ⟨"bus"⟩)).map (·.2.id) =
      [⟨"drt_prebooked_0"⟩, ⟨"bus_0"⟩] ∧
    ((w.services.created (bothTravel ⟨"bus"⟩)).map (·.2.id)).Nodup :=
  ⟨_, rfl, by decide +kernel,
    (names_distinct_iff (s := besides ⟨"bus"⟩) rfl (bothTravel ⟨"bus"⟩)).2.2.2 (by decide)⟩

/-- The booking and the departure have one name, as the other mode is named like the bookings. -/
theorem booking_and_namesake_clash : ∃ w, (besides ⟨"drt_prebooked"⟩).build = .ok w ∧
    (w.services.created (bothTravel ⟨"drt_prebooked"⟩)).map (·.2.id) =
      [⟨"drt_prebooked_0"⟩, ⟨"drt_prebooked_0"⟩] :=
  ⟨_, rfl, by decide +kernel⟩

end Setup

end DialARide
