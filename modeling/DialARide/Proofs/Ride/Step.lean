import DialARide.Proofs.Ride.Reading
import Mathlib.Data.List.Induction

/-!
# What one step does

A step takes the rejections off the front of the mailbox that are due and applies them one after the
other, so a later one meets the tables as an earlier one left them. What the whole step does can all
the same be told from the tables before it: the first rejection of a bound request aborts its
traveler, every stop that waits for a named request stops waiting, and a booked request keeps the
last rejection that found nobody bound to it.
-/

namespace DialARide

namespace Service

/-- The requests that rejections name, in the order in which they are first named. -/
def named (due : List Rejection) : List RequestId := (due.map (·.request)).eraseDups

/-- Those of them to which somebody is bound. -/
def struck (s : Service) (due : List Rejection) : List RequestId :=
  (named due).filter s.bound.contains

/-- What is told of a request to which somebody is bound: it is rejected for the cause of its first
rejection, and then its traveler is aborted. -/
def notices (s : Service) (now : Time) (due : List Rejection) (id : RequestId) : List Call :=
  match s.bound.find? id, due.find? (·.request = id) with
  | some b, some r =>
    [.observe { s.observation now .rejected id b.person with cause := some r.cause },
      .abort b.traveler now]
  | _, _ => []

/-- A rejection is parked for the request when the given ones are applied. This happens if the
request is booked and one of its rejections finds nobody bound: the first if nobody was bound
before, and otherwise any that comes after the first. -/
def Parks (s : Service) (due : List Rejection) (id : RequestId) : Prop :=
  s.isBooked id ∧ id ∈ due.map (·.request) ∧
    (s.bound.find? id = none ∨ 1 < (due.map (·.request)).count id)

instance (s : Service) (due : List Rejection) (id : RequestId) : Decidable (s.Parks due id) :=
  inferInstanceAs (Decidable (_ ∧ _ ∧ _))

/-- What applying rejections does, told from the tables before the first of them. -/
structure Applied (s : Service) (now : Time) (due : List Rejection) (t : Turn) : Prop where
  calls : t.calls = (s.struck due).flatMap (s.notices now due)
  bound : ∀ id, t.service.bound.find? id =
    if id ∈ due.map (·.request) then none else s.bound.find? id
  waitingStops : ∀ id, t.service.waitingStops.find? id =
    if id ∈ due.map (·.request) then none else s.waitingStops.find? id
  parked : ∀ id, t.service.parked.find? id =
    if s.Parks due id then (due.filter (·.request = id)).getLast? else s.parked.find? id

variable {s : Service} {now : Time} {due : List Rejection} {r : Rejection} {t : Turn}

theorem waitingStops_applyRejection (s : Service) (now : Time) (r : Rejection) (id : RequestId) :
    (s.applyRejection now r).1.waitingStops.find? id =
      if r.request = id then none else s.waitingStops.find? id := by
  have hstops : (s.applyRejection now r).1.waitingStops = s.waitingStops.erase r.request := by
    unfold applyRejection
    cases hb : s.bound.find? r.request with
    | some b => simp [hb]
    | none =>
      simp only [hb]
      split <;> rfl
  rw [hstops, Table.find?_erase]

/-- The last of several rejections is applied to what the others left. -/
theorem applyRejections_concat (now : Time) (s : Service) (due : List Rejection) (r : Rejection) :
    applyRejections now s (due ++ [r]) =
      { service := ((applyRejections now s due).service.applyRejection now r).1
        calls := (applyRejections now s due).calls ++
          ((applyRejections now s due).service.applyRejection now r).2 } := by
  induction due generalizing s with
  | nil => simp [applyRejections]
  | cons q due ih => simp [applyRejections, ih]

/-- A further rejection strikes its request if that is named for the first time. -/
private theorem struck_concat (s : Service) (due : List Rejection) (r : Rejection) :
    s.struck (due ++ [r]) = s.struck due ++
      if r.request ∉ due.map (·.request) ∧ s.bound.contains r.request then [r.request] else [] := by
  unfold struck named
  rw [List.map_append, List.eraseDups_append, List.filter_append]
  congr 1
  by_cases hmem : r.request ∈ due.map (·.request)
  · have hnone : [r.request].removeAll (due.map (·.request)) = [] := by
      simpa [List.removeAll] using hmem
    rw [List.map_singleton, hnone, if_neg fun h => h.1 hmem]
    rfl
  · have hone : [r.request].removeAll (due.map (·.request)) = [r.request] := by
      simpa [List.removeAll] using hmem
    rw [List.map_singleton, hone]
    by_cases hb : s.bound.contains r.request <;> simp [hb, hmem, List.eraseDups_cons]

/-- What is told of a request is settled by its first rejection. -/
private theorem notices_concat {id : RequestId} (hid : id ∈ due.map (·.request)) (r : Rejection) :
    s.notices now (due ++ [r]) id = s.notices now due id := by
  have hfind : (due ++ [r]).find? (·.request = id) = due.find? (·.request = id) := by
    obtain ⟨q, hq, rfl⟩ := List.mem_map.1 hid
    have hsome : (due.find? (·.request = q.request)).isSome := by
      simpa using ⟨q, hq, rfl⟩
    rw [List.find?_append, Option.or_of_isSome hsome]
  unfold notices
  rw [hfind]

theorem mem_struck_iff {id : RequestId} :
    id ∈ s.struck due ↔ id ∈ due.map (·.request) ∧ ∃ b, s.bound.find? id = some b := by
  simp [struck, named, List.mem_eraseDups, Table.contains, Option.isSome_iff_exists]

/-- The first rejection of a request is applied to whoever was bound to it. -/
theorem notices_first (h : r.request ∉ due.map (·.request)) {b : Binding}
    (hb : s.bound.find? r.request = some b) : s.notices now (due ++ [r]) r.request =
      [.observe { s.observation now .rejected r.request b.person with cause := some r.cause },
        .abort b.traveler now] := by
  have hnone : due.find? (·.request = r.request) = none := by
    rw [List.find?_eq_none]
    exact fun q hq heq => h (List.mem_map.2 ⟨q, hq, of_decide_eq_true heq⟩)
  have hfirst : (due ++ [r]).find? (·.request = r.request) = some r := by
    simp [List.find?_append, hnone]
  rw [notices, hb, hfirst]

private theorem mem_map_concat {id : RequestId} : id ∈ (due ++ [r]).map (·.request) ↔
    r.request = id ∨ id ∈ due.map (·.request) := by
  simp [or_comm, eq_comm]

/-- A further rejection is parked if its request is booked and nobody is bound any more. -/
private theorem parks_concat_self : s.Parks (due ++ [r]) r.request ↔ s.isBooked r.request ∧
    (s.bound.find? r.request = none ∨ r.request ∈ due.map (·.request)) := by
  simp [Parks]

private theorem parks_concat_of_ne {id : RequestId} (h : r.request ≠ id) :
    s.Parks (due ++ [r]) id ↔ s.Parks due id := by
  unfold Parks
  rw [mem_map_concat, List.map_append, List.count_append, List.map_singleton,
    List.count_singleton]
  simp [h]

/-! ## One rejection more -/

/-- Where no rejection was applied, nothing has changed. -/
theorem applied_nil (s : Service) (now : Time) : s.Applied now [] { service := s } :=
  ⟨rfl, fun _ => by simp, fun _ => by simp, fun id => by simp [Parks]⟩

/-- The next rejection takes effect on its request if that is bound and named for the first time. -/
theorem Applied.calls_concat (h : s.Applied now due (applyRejections now s due)) (r : Rejection) :
    (applyRejections now s (due ++ [r])).calls =
      (s.struck (due ++ [r])).flatMap (s.notices now (due ++ [r])) := by
  have hbefore : (s.struck due).flatMap (s.notices now (due ++ [r])) =
      (s.struck due).flatMap (s.notices now due) :=
    List.flatMap_congr fun id hid => notices_concat (mem_struck_iff.1 hid).1 r
  have hmode : (applyRejections now s due).service.mode = s.mode := by
    obtain ⟨bound, waitingStops, parked, heq⟩ := exists_applyRejections now s due
    rw [heq]
  rw [applyRejections_concat, struck_concat, List.flatMap_append, hbefore, ← h.calls]
  refine congrArg (_ ++ ·) ?_
  rw [calls_applyRejection, h.bound]
  by_cases hmem : r.request ∈ due.map (·.request)
  · rw [if_pos hmem, if_neg fun hnew => hnew.1 hmem]
    rfl
  · rw [if_neg hmem]
    cases hb : s.bound.find? r.request with
    | none => simp [Table.contains, hb]
    | some b => simp [Table.contains, hb, hmem, notices_first hmem hb, observation, hmode]

/-- The next rejection is parked if its request is booked and nobody is bound to it any more. -/
theorem Applied.parked_concat (h : s.Applied now due (applyRejections now s due)) (r : Rejection)
    (id : RequestId) : (applyRejections now s (due ++ [r])).service.parked.find? id =
      if s.Parks (due ++ [r]) id then ((due ++ [r]).filter (·.request = id)).getLast?
      else s.parked.find? id := by
  rw [applyRejections_concat, parked_applyRejection, h.bound, h.parked, isBooked_applyRejections]
  by_cases hid : r.request = id
  · subst hid
    have hlast : ((due ++ [r]).filter (·.request = r.request)).getLast? = some r := by simp
    rw [hlast, if_congr parks_concat_self rfl rfl]
    by_cases hbooked : s.isBooked r.request <;>
      by_cases hmem : r.request ∈ due.map (·.request) <;>
      by_cases hb : s.bound.find? r.request = none <;> simp [Parks, hbooked, hmem, hb]
  · have hsame : (due ++ [r]).filter (·.request = id) = due.filter (·.request = id) := by
      simp [hid]
    rw [hsame, if_congr (parks_concat_of_ne hid) rfl rfl, if_neg fun hnew => hid hnew.1]

theorem Applied.concat (h : s.Applied now due (applyRejections now s due)) (r : Rejection) :
    s.Applied now (due ++ [r]) (applyRejections now s (due ++ [r])) where
  calls := h.calls_concat r
  bound id := by
    rw [applyRejections_concat, bound_applyRejection, h.bound, if_congr mem_map_concat rfl rfl]
    by_cases hid : r.request = id <;> simp [hid]
  waitingStops id := by
    rw [applyRejections_concat, waitingStops_applyRejection, h.waitingStops,
      if_congr mem_map_concat rfl rfl]
    by_cases hid : r.request = id <;> simp [hid]
  parked := h.parked_concat r

/-! ## All that is due -/

theorem applied_applyRejections (s : Service) (now : Time) (due : List Rejection) :
    s.Applied now due (applyRejections now s due) := by
  induction due using List.reverseRecOn with
  | nil => exact s.applied_nil now
  | append_singleton due r ih => exact ih.concat r

/-- One traveler is aborted for each request that is struck. -/
theorem Applied.aborted (h : s.Applied now due t) : t.aborted = (s.struck due).length := by
  have hone : ∀ id ∈ s.struck due, (s.notices now due id).countP (·.isAbort) = 1 := by
    intro id hid
    obtain ⟨hmem, b, hb⟩ := mem_struck_iff.1 hid
    obtain ⟨q, hq, hid⟩ := List.mem_map.1 hmem
    have hsome : (due.find? (·.request = id)).isSome := by simpa using ⟨q, hq, hid⟩
    obtain ⟨r, hr⟩ := Option.isSome_iff_exists.1 hsome
    rw [notices, hb, hr]
    rfl
  have hsum : (s.struck due).map (List.countP (·.isAbort) ∘ s.notices now due) =
      (s.struck due).map fun _ => 1 := List.map_congr_left hone
  rw [Turn.aborted, h.calls, List.countP_flatMap, hsum]
  simp

/-- Let the rejections at the front of the mailbox that are older than the present be due, up to the
first that is not. A step leaves the others in the mailbox. For each request that they name and to
which somebody is bound, in the order in which they are first named, it observes that the request is
rejected, for the cause of its first rejection, and then aborts the traveler. Nobody stays bound to
a request that is named, and no stop waits for its passenger. If such a request is booked, and
nobody was bound to it or it is named more than once, its last rejection is parked. Nothing else
changes. -/
theorem step_applies_what_is_due (s : Service) (now : Time) : ∃ due rest,
    s.mailbox = due ++ rest ∧ (∀ r ∈ due, r.time < now) ∧ (∀ r ∈ rest.head?, now ≤ r.time) ∧
    (s.step now).service.mailbox = rest ∧
    (s.step now).calls = (s.struck due).flatMap (s.notices now due) ∧
    (s.step now).aborted = (s.struck due).length ∧
    (∀ id, (s.step now).service.bound.find? id =
      if id ∈ due.map (·.request) then none else s.bound.find? id) ∧
    (∀ id, (s.step now).service.waitingStops.find? id =
      if id ∈ due.map (·.request) then none else s.waitingStops.find? id) ∧
    (∀ id, (s.step now).service.parked.find? id =
      if s.isBooked id ∧ id ∈ due.map (·.request) ∧
        (s.bound.find? id = none ∨ 1 < (due.map (·.request)).count id)
      then (due.filter (·.request = id)).getLast? else s.parked.find? id) ∧
    (s.step now).submitted = [] ∧
    ∃ bound waitingStops parked,
      (s.step now).service = { s with mailbox := rest, bound, waitingStops, parked } := by
  let due := s.mailbox.takeWhile (·.time < now)
  let rest := s.mailbox.dropWhile (·.time < now)
  have happlied : s.Applied now due (s.step now) := by
    obtain ⟨hcalls, hbound, hstops, hparked⟩ :=
      applied_applyRejections { s with mailbox := rest } now due
    exact ⟨hcalls, hbound, hstops, hparked⟩
  obtain ⟨bound, waitingStops, parked, hservice⟩ :=
    exists_applyRejections now { s with mailbox := rest } due
  refine ⟨due, rest, List.takeWhile_append_dropWhile.symm, fun r hr => ?_, fun r hr => ?_,
    congrArg Service.mailbox hservice, happlied.calls, happlied.aborted, happlied.bound,
    happlied.waitingStops, happlied.parked, submitted_applyRejections .., bound, waitingStops,
    parked, hservice⟩
  · simpa using List.all_eq_true.1 List.all_takeWhile r hr
  · have hfirst := List.head?_dropWhile_not (fun r : Rejection => r.time < now) s.mailbox
    rw [Option.mem_def.1 hr] at hfirst
    simpa using hfirst

/-- Somebody is bound to one of two requests that are rejected twice, and both are booked. The first
rejection of the bound one is applied, all others are parked over one another, and a rejection that
is not due holds back one that is. -/
example :
    let r (time : Time) (id cause : String) : Rejection := ⟨time, ⟨"drt"⟩, ⟨id⟩, cause⟩
    let ride (id : String) : Request := ⟨⟨id⟩, ⟨"p"⟩, ⟨"drt"⟩, ⟨"a"⟩, ⟨"b"⟩, 0, 0, none⟩
    let s : Service := {
      mode := ⟨"drt"⟩, network := .ofLinks []
      desk := some { bookings := .ofList [(⟨⟨"p"⟩, 0⟩, ride "x"), (⟨⟨"p"⟩, 1⟩, ride "y")] }
      bound := .ofList [(⟨"x"⟩, ⟨7, ⟨"p"⟩, ⟨"b"⟩, .waitingActive⟩)]
      mailbox := [r 1 "y" "late", r 2 "x" "full", r 1 "x" "late", r 2 "y" "full", r 5 "x" "off",
        r 1 "y" "off"] }
    (s.step 5).aborted = 1 ∧ (s.step 5).service.mailbox = [r 5 "x" "off", r 1 "y" "off"] ∧
      (s.step 5).service.parked.values = [r 1 "x" "late", r 2 "y" "full"] := by
  decide +kernel

end Service

end DialARide
