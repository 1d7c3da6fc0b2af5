import DialARide.Proofs.Clock
import Mathlib.Data.List.Nodup

/-!
# The history of a clock

Whatever is scheduled on a clock and taken from it, and in whatever order: every event that was
scheduled is taken once or still outstanding. The next event is the outstanding one that is due
first, by its time, then by its kind, then in the order of scheduling, and time never goes back.
-/

namespace DialARide

namespace Event

variable {a b : Event}

/-- An event is due before another one by its time, else by its kind, else because it was scheduled
first. -/
theorem before_iff : a.Before b ↔ a.time < b.time ∨ a.time = b.time ∧
    (a.kind.rank < b.kind.rank ∨ a.kind.rank = b.kind.rank ∧ a.serial < b.serial) := by
  unfold Before order
  rw [Ordering.then_eq_lt, Ordering.then_eq_lt, Std.compare_eq_lt, Std.compare_eq_lt,
    Std.compare_eq_lt, Std.compare_eq_iff_eq, Std.compare_eq_iff_eq]

theorem Before.time_le (h : a.Before b) : a.time ≤ b.time :=
  (precedes_of_order_eq_lt h).time_le

end Event

namespace Clock

/-- What can be asked of a clock. -/
inductive Use where
  | scheduleAt (time : Time) (kind : EventKind) (subject : Option Subject)
  | scheduleIn (delay : Time) (kind : EventKind) (subject : Option Subject)
  | next
  deriving DecidableEq, Repr

/-- A clock, with all events that were scheduled on it and taken from it. -/
structure History where
  clock : Clock := {}
  /-- The events in the order of scheduling, each numbered by those before it. -/
  scheduled : List Event := []
  /-- The events in the order in which they were taken. -/
  taken : List Event := []
  deriving DecidableEq, Repr

namespace History

/-- The history with one more event scheduled. -/
def schedule (h : History) (time : Time) (kind : EventKind) (subject : Option Subject)
    (clock : Clock) : History :=
  { h with clock, scheduled := h.scheduled ++ [⟨time, kind, subject, h.scheduled.length⟩] }

/-- Uses the clock once more. A use that halts leads to no history. -/
def use (h : History) : Use → Except Halt History
  | .scheduleAt time kind subject => do
    return h.schedule time kind subject (← h.clock.scheduleAt time kind subject)
  | .scheduleIn delay kind subject => do
    let clock ← h.clock.scheduleIn delay kind subject
    return h.schedule (h.clock.now + delay) kind subject clock
  | .next =>
    match h.clock.next? with
    | none => .ok h
    | some (e, clock) => .ok { h with clock, taken := h.taken ++ [e] }

/-- Uses the clock again and again. -/
def follow (h : History) (uses : List Use) : Except Halt History := uses.foldlM use h

/-- The events that were scheduled and not taken, in the order of scheduling. -/
def outstanding (h : History) : List Event := h.scheduled.filter (· ∉ h.taken)

/-- What is known of a history: its events are numbered in the order of scheduling, what was
scheduled was taken or is pending, the clock is in order, and what was taken was so in time. -/
structure Kept (h : History) : Prop where
  numbers : h.scheduled.map (·.serial) = List.range h.scheduled.length
  counted : h.clock.scheduled = h.scheduled.length
  accounted : (h.taken ++ h.clock.pending).Perm h.scheduled
  strict : h.clock.Strict
  timely : h.clock.Timely
  inTime : h.taken.Pairwise fun a b => a.time ≤ b.time
  past : ∀ e ∈ h.taken, e.time ≤ h.clock.now

variable {h h' : History}

theorem kept_start : Kept {} := by
  refine ⟨rfl, rfl, .refl _, ⟨.nil, ?_⟩, ⟨.nil, ?_⟩, .nil, ?_⟩ <;> simp

/-- Scheduling an event keeps the history in order. -/
theorem Kept.schedule (hk : h.Kept) {time : Time} {kind : EventKind} {subject : Option Subject}
    {clock : Clock} (hc : h.clock.scheduleAt time kind subject = .ok clock) :
    (h.schedule time kind subject clock).Kept := by
  obtain ⟨hnow, hahead, hpending⟩ := scheduleAt_eq_ok hc
  have hstrict := hk.strict.scheduleAt hc
  obtain ⟨clock', hc', -, hcount, hperm⟩ := exists_scheduleAt hahead kind subject
  obtain rfl : clock = clock' := Except.ok.inj (hc.symm.trans hc')
  rw [hk.counted] at hcount hperm
  refine ⟨?_, ?_, ?_, hstrict, (grown_scheduleAt hc).timely hk.timely, hk.inTime, ?_⟩
  · simp [History.schedule, hk.numbers, List.range_succ]
  · simpa [History.schedule] using hcount
  · have hback : List.Perm (h.taken ++ clock.pending)
        (⟨time, kind, subject, h.scheduled.length⟩ :: (h.taken ++ h.clock.pending)) :=
      (hperm.append_left _).trans List.perm_middle
    exact hback.trans ((hk.accounted.cons _).trans (List.perm_append_singleton _ _).symm)
  · intro e he
    show e.time ≤ clock.now
    rw [hnow]
    exact hk.past e he

/-- An event that is scheduled after a delay is scheduled at the time when the delay is over. -/
theorem scheduleAt_of_scheduleIn {c c' : Clock} {delay : Time} {kind : EventKind}
    {subject : Option Subject} (h : c.scheduleIn delay kind subject = .ok c') :
    c.scheduleAt (c.now + delay) kind subject = .ok c' := by
  unfold scheduleIn Time.plus at h
  split at h
  · exact h
  · cases h

/-- Taking the next event keeps the history in order. -/
theorem Kept.next (hk : h.Kept) {e : Event} {clock : Clock}
    (hnext : h.clock.next? = some (e, clock)) :
    Kept { h with clock, taken := h.taken ++ [e] } := by
  obtain ⟨hpending, hnow⟩ := next?_eq_some hnext
  have hahead : h.clock.now ≤ e.time := hk.timely.ahead e (hpending ▸ List.mem_cons_self)
  have hcounted : clock.scheduled = h.clock.scheduled := by
    unfold next? at hnext
    split at hnext <;> cases hnext
    rfl
  refine ⟨hk.numbers, hcounted.trans hk.counted, ?_, (hk.strict.next hnext).1,
    hk.timely.next hnext, ?_, ?_⟩
  · rw [List.append_assoc, List.singleton_append, ← hpending]
    exact hk.accounted
  · refine List.pairwise_append.2 ⟨hk.inTime, List.pairwise_singleton _ _, fun d hd d' hd' => ?_⟩
    rw [List.mem_singleton.1 hd']
    exact UInt64.le_trans (hk.past d hd) hahead
  · intro d hd
    rw [hnow]
    rcases List.mem_append.1 hd with hd | hd
    · exact UInt64.le_trans (hk.past d hd) hahead
    · exact UInt64.le_of_eq (congrArg Event.time (List.mem_singleton.1 hd))

/-- Every use of the clock keeps its history in order. -/
theorem Kept.use (hk : h.Kept) {u : Use} (hu : h.use u = .ok h') : h'.Kept := by
  cases u with
  | scheduleAt time kind subject =>
    cases hc : h.clock.scheduleAt time kind subject with
    | error halt => simp [History.use, hc, Bind.bind, Except.bind] at hu
    | ok clock =>
      simp only [History.use, hc, Bind.bind, Except.bind, Pure.pure, Except.pure,
        Except.ok.injEq] at hu
      exact hu ▸ hk.schedule hc
  | scheduleIn delay kind subject =>
    cases hc : h.clock.scheduleIn delay kind subject with
    | error halt => simp [History.use, hc, Bind.bind, Except.bind] at hu
    | ok clock =>
      simp only [History.use, hc, Bind.bind, Except.bind, Pure.pure, Except.pure,
        Except.ok.injEq] at hu
      exact hu ▸ hk.schedule (scheduleAt_of_scheduleIn hc)
  | next =>
    simp only [History.use] at hu
    split at hu <;> cases hu
    · exact hk
    · next hnext => exact hk.next hnext

/-- The history of a clock is in order however often the clock is used. -/
theorem Kept.follow (hk : h.Kept) {uses : List Use} (hf : h.follow uses = .ok h') : h'.Kept := by
  induction uses generalizing h with
  | nil =>
    cases hf
    exact hk
  | cons u rest ih =>
    unfold History.follow at hf
    rw [List.foldlM_cons] at hf
    cases hu : h.use u with
    | error halt => simp [hu, Bind.bind, Except.bind] at hf
    | ok next =>
      rw [hu] at hf
      exact ih (hk.use hu) hf

/-! ## What is outstanding -/

/-- Events have numbers of their own, so none was scheduled twice. -/
theorem Kept.nodup (hk : h.Kept) : h.scheduled.Nodup := by
  have hnumbers : (h.scheduled.map (·.serial)).Nodup := hk.numbers ▸ List.nodup_range
  exact List.Nodup.of_map _ hnumbers

/-- What is pending on the clock is what is outstanding, listed in another order. -/
theorem Kept.pending_perm (hk : h.Kept) : h.clock.pending.Perm h.outstanding := by
  obtain ⟨-, -, hapart⟩ := List.nodup_append.1 (hk.accounted.nodup_iff.2 hk.nodup)
  have htaken : h.taken.filter (· ∉ h.taken) = [] :=
    List.filter_eq_nil_iff.2 fun e he => by simpa using he
  have hpending : h.clock.pending.filter (· ∉ h.taken) = h.clock.pending :=
    List.filter_eq_self.2 fun e he => by simpa using fun ht => hapart e ht e he rfl
  have hperm := hk.accounted.filter (· ∉ h.taken)
  rwa [List.filter_append, htaken, hpending, List.nil_append] at hperm

/-- What was scheduled was taken or is outstanding. -/
theorem Kept.taken_append_outstanding (hk : h.Kept) :
    (h.taken ++ h.outstanding).Perm h.scheduled :=
  (hk.pending_perm.symm.append_left _).trans hk.accounted

/-- The next event is an outstanding one, and due before all others. -/
theorem Kept.first (hk : h.Kept) {e : Event} {clock : Clock}
    (hnext : h.clock.next? = some (e, clock)) :
    e ∈ h.outstanding ∧ ∀ d ∈ h.outstanding, d ≠ e → e.Before d := by
  have hperm := hk.pending_perm
  rw [(next?_eq_some hnext).1] at hperm
  refine ⟨hperm.mem_iff.1 List.mem_cons_self, fun d hd hne => ?_⟩
  exact (hk.strict.next hnext).2 d ((List.mem_cons.1 (hperm.mem_iff.2 hd)).resolve_left hne)

theorem next?_eq_none_iff {c : Clock} : c.next? = none ↔ c.pending = [] := by
  unfold next?
  split <;> simp_all

/-- The time of the next event is the least of all outstanding ones. -/
theorem Kept.nextTime?_eq_some_iff (hk : h.Kept) {time : Time} :
    h.clock.nextTime? = some time ↔
      (∃ e ∈ h.outstanding, e.time = time) ∧ ∀ d ∈ h.outstanding, time ≤ d.time := by
  have hmem (e : Event) : e ∈ h.outstanding ↔ e ∈ h.clock.pending :=
    hk.pending_perm.mem_iff.symm
  have hsorted := hk.timely.sorted
  simp only [hmem]
  unfold nextTime?
  cases hpending : h.clock.pending with
  | nil => simp
  | cons first rest =>
    rw [hpending, List.pairwise_cons] at hsorted
    have hleast : ∀ d ∈ first :: rest, first.time ≤ d.time := by
      intro d hd
      rcases List.mem_cons.1 hd with rfl | hd
      · exact UInt64.le_refl _
      · exact hsorted.1 d hd
    simp only [List.head?_cons, Option.map_some, Option.some.injEq]
    constructor
    · rintro rfl
      exact ⟨⟨first, List.mem_cons_self, rfl⟩, hleast⟩
    · rintro ⟨⟨e, he, rfl⟩, hall⟩
      exact UInt64.le_antisymm (hleast e he) (hall first List.mem_cons_self)

/-- A clock is a stable priority queue. Whatever is asked of it, as long as nothing halts: the
events that were scheduled are those taken together with those outstanding, each of them once;
what is taken next is outstanding, due before everything else that is, and its time becomes the
present; the times of what was taken never decrease, nothing outstanding lies in the past, and all
that can be asked about the pending events is answered for the outstanding ones. -/
theorem stable_queue {uses : List Use} {h : History} (hf : follow {} uses = .ok h) :
    h.scheduled.map (·.serial) = List.range h.scheduled.length ∧
      (h.taken ++ h.outstanding).Perm h.scheduled ∧
      (h.clock.next? = none ↔ h.outstanding = []) ∧
      (∀ e clock, h.clock.next? = some (e, clock) →
        e ∈ h.outstanding ∧ clock.now = e.time ∧ ∀ d ∈ h.outstanding, d ≠ e →
          e.time < d.time ∨ e.time = d.time ∧
            (e.kind.rank < d.kind.rank ∨ e.kind.rank = d.kind.rank ∧ e.serial < d.serial)) ∧
      (h.taken.map (·.time)).Pairwise (· ≤ ·) ∧
      (∀ e ∈ h.outstanding, h.clock.now ≤ e.time) ∧
      (∀ time, h.clock.nextTime? = some time ↔
        (∃ e ∈ h.outstanding, e.time = time) ∧ ∀ d ∈ h.outstanding, time ≤ d.time) ∧
      h.clock.size = h.outstanding.length ∧ (h.clock.isEmpty ↔ h.outstanding = []) ∧
      ∀ kind, h.clock.hasPending kind ↔ ∃ e ∈ h.outstanding, e.kind = kind := by
  have hk : h.Kept := kept_start.follow hf
  have hperm := hk.pending_perm
  have hempty : h.clock.pending = [] ↔ h.outstanding = [] := by
    rw [← List.length_eq_zero_iff, hperm.length_eq, List.length_eq_zero_iff]
  refine ⟨hk.numbers, hk.taken_append_outstanding, next?_eq_none_iff.trans hempty, ?_,
    List.pairwise_map.2 hk.inTime, fun e he => hk.timely.ahead e (hperm.mem_iff.2 he),
    fun time => hk.nextTime?_eq_some_iff, hperm.length_eq, ?_, fun kind => ?_⟩
  · intro e clock hnext
    obtain ⟨hmem, hfirst⟩ := hk.first hnext
    exact ⟨hmem, (next?_eq_some hnext).2, fun d hd hne => Event.before_iff.1 (hfirst d hd hne)⟩
  · rw [isEmpty, List.isEmpty_iff, hempty]
  · simp [hasPending, hperm.mem_iff]

/-- Three events are scheduled for one instant, and one more during that instant. Steps go before
departures, and the traveler who was scheduled first departs first. -/
theorem departures_of_one_instant :
    let first : Event := ⟨7, .departure, some (.traveler 1), 0⟩
    let second : Event := ⟨7, .departure, some (.traveler 2), 2⟩
    let uses : List Use := [
      .scheduleAt 7 .departure first.subject, .scheduleAt 7 .passengerStep none,
      .scheduleAt 7 .departure second.subject, .next, .scheduleIn 0 .passengerStep none, .next]
    ∃ h clock, follow {} uses = .ok h ∧ h.clock.next? = some (first, clock) ∧
      h.taken.map (·.serial) = [1, 3] ∧ h.outstanding = [first, second] ∧
      (h.taken ++ h.outstanding).Perm h.scheduled ∧ clock.now = 7 := by
  intro first second uses
  have hf : follow {} uses = .ok
      { clock := ⟨7, [first, second], 4⟩
        scheduled := [first, ⟨7, .passengerStep, none, 1⟩, second, ⟨7, .passengerStep, none, 3⟩]
        taken := [⟨7, .passengerStep, none, 1⟩, ⟨7, .passengerStep, none, 3⟩] } := by
    decide
  obtain ⟨-, hperm, -, hnext, -⟩ := stable_queue hf
  exact ⟨_, ⟨7, [second], 4⟩, hf, rfl, rfl, by decide, hperm, (hnext first _ rfl).2.1⟩

end History

end Clock

end DialARide
