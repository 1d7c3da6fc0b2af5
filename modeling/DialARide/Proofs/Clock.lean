import DialARide.Clock
import DialARide.Proofs.List

/-!
# What is known of a clock

Scheduling adds one event and leaves the time and all other events alone. A clock is timely if its
events are listed by time and none lies in the past; it stays so while events are scheduled and
taken, and therefore an event that is due now is taken before time moves on. It is arranged if the
events of one time are also listed by kind, and strict if those of one kind are in the order in
which they were scheduled.
-/

namespace DialARide

namespace Event

/-- An event comes no later than another one, and within one instant no later by its kind. -/
def Precedes (a b : Event) : Prop :=
  a.time < b.time ∨ a.time = b.time ∧ a.kind.rank ≤ b.kind.rank

variable {a b c : Event}

theorem Precedes.time_le (h : a.Precedes b) : a.time ≤ b.time := by
  rcases h with hlt | ⟨heq, -⟩
  · exact UInt64.le_of_lt hlt
  · exact UInt64.le_of_eq heq

theorem Precedes.trans (h : a.Precedes b) (h' : b.Precedes c) : a.Precedes c := by
  rcases h with hlt | ⟨heq, hkind⟩
  · exact .inl (UInt64.lt_of_lt_of_le hlt h'.time_le)
  · rcases h' with hlt' | ⟨heq', hkind'⟩
    · exact .inl (heq ▸ hlt')
    · exact .inr ⟨heq.trans heq', Nat.le_trans hkind hkind'⟩

theorem precedes_of_order_eq_lt (h : a.order b = .lt) : a.Precedes b := by
  unfold order at h
  rw [Ordering.then_eq_lt, Ordering.then_eq_lt] at h
  rcases h with htime | ⟨htime, hkind | ⟨hkind, -⟩⟩
  · exact .inl (Std.compare_eq_lt.1 htime)
  · exact .inr ⟨Std.compare_eq_iff_eq.1 htime, Nat.le_of_lt (Std.compare_eq_lt.1 hkind)⟩
  · exact .inr ⟨Std.compare_eq_iff_eq.1 htime, Nat.le_of_eq (Std.compare_eq_iff_eq.1 hkind)⟩

theorem precedes_of_order_ne_lt (h : a.order b ≠ .lt) : b.Precedes a := by
  unfold order at h
  rw [Ne, Ordering.then_eq_lt, Ordering.then_eq_lt, not_or, not_and_or] at h
  obtain ⟨htime, hkind⟩ := h
  have hle : b.time ≤ a.time := UInt64.not_lt.1 fun hlt => htime (Std.compare_eq_lt.2 hlt)
  rcases UInt64.lt_or_eq_of_le hle with hlt | heq
  · exact .inl hlt
  · refine .inr ⟨heq, Nat.le_of_not_lt fun hlt => ?_⟩
    rcases hkind with hne | hnot
    · exact hne (Std.compare_eq_iff_eq.2 heq.symm)
    · exact hnot (.inl (Std.compare_eq_lt.2 hlt))

/-- An event is due before another one. -/
def Before (a b : Event) : Prop := a.order b = .lt

instance : Std.TransCmp order :=
  inferInstanceAs (Std.TransCmp (compareLex (compareOn Event.time)
    (compareLex (compareOn (·.kind.rank)) (compareOn Event.serial))))

theorem Before.trans (h : a.Before b) (h' : b.Before c) : a.Before c :=
  Std.TransCmp.lt_trans h h'

theorem Before.asymm (h : a.Before b) : ¬ b.Before a := Std.OrientedCmp.not_lt_of_lt h

/-- Of two events with numbers of their own one is due before the other. -/
theorem before_or_before (h : a.serial ≠ b.serial) : a.Before b ∨ b.Before a := by
  cases horder : a.order b with
  | lt => exact .inl horder
  | gt => exact .inr (Std.OrientedCmp.lt_of_gt horder)
  | eq =>
    unfold order at horder
    rw [Ordering.then_eq_eq, Ordering.then_eq_eq] at horder
    exact absurd (Std.compare_eq_iff_eq.1 horder.2.2) h

/-- Within one instant and kind the event that was scheduled first is due first. -/
theorem before_of_serial_lt (h : a.Precedes b) (hserial : a.serial < b.serial) : a.Before b := by
  unfold Before order
  rw [Ordering.then_eq_lt, Ordering.then_eq_lt]
  rcases h with htime | ⟨htime, hkind⟩
  · exact .inl (Std.compare_eq_lt.2 htime)
  · refine .inr ⟨Std.compare_eq_iff_eq.2 htime, ?_⟩
    rcases Nat.lt_or_eq_of_le hkind with hlt | heq
    · exact .inl (Std.compare_eq_lt.2 hlt)
    · exact .inr ⟨Std.compare_eq_iff_eq.2 heq, Std.compare_eq_lt.2 hserial⟩

/-- An event is inserted before the first that is due after it. -/
theorem insertIn_eq_orderedInsert (e : Event) (l : List Event) :
    insertIn e l = l.orderedInsert (fun a b => a.order b = .lt) e := by
  induction l with
  | nil => rfl
  | cons a rest ih => rw [insertIn, ih, List.orderedInsert_cons]

theorem perm_insertIn (e : Event) (l : List Event) : (insertIn e l).Perm (e :: l) := by
  rw [insertIn_eq_orderedInsert]
  exact List.perm_orderedInsert _ e l

/-- Scheduling keeps events listed in any order that the place of the new event agrees with. -/
theorem pairwise_insertIn {R : Event → Event → Prop} (e : Event) {l : List Event}
    (htrans : ∀ {a b c : Event}, R a b → R b c → R a c)
    (hfirst : ∀ a ∈ l, e.order a = .lt → R e a) (hlater : ∀ a ∈ l, e.order a ≠ .lt → R a e)
    (h : l.Pairwise R) : (insertIn e l).Pairwise R := by
  rw [insertIn_eq_orderedInsert]
  apply h.orderedInsert_of _ hlater
  intro a ha hlt
  exact ⟨hfirst a ha hlt, fun b _ hab => htrans (hfirst a ha hlt) hab⟩

end Event

namespace Clock

/-- The events are listed by time, and none is in the past. -/
structure Timely (c : Clock) : Prop where
  sorted : c.pending.Pairwise fun a b => a.time ≤ b.time
  ahead : ∀ e ∈ c.pending, c.now ≤ e.time

/-- The events are listed by time, and those of one time by kind. -/
def Arranged (c : Clock) : Prop := c.pending.Pairwise Event.Precedes

/-- The events are listed in the order in which they are due, each with a number of its own. -/
structure Strict (c : Clock) : Prop where
  sorted : c.pending.Pairwise Event.Before
  numbered : ∀ e ∈ c.pending, e.serial < c.scheduled

/-- A clock that came from another one by scheduling events of a sort. -/
structure Grown (p : Event → Prop) (c c' : Clock) : Prop where
  now : c'.now = c.now
  pending : ∃ added, c'.pending.Perm (added ++ c.pending) ∧ ∀ e ∈ added, p e
  timely : c.Timely → c'.Timely

variable {p q : Event → Prop} {c c' c'' : Clock}

theorem Grown.refl (p : Event → Prop) (c : Clock) : Grown p c c :=
  ⟨rfl, ⟨[], .refl _, by simp⟩, id⟩

theorem Grown.trans (h : Grown p c c') (h' : Grown p c' c'') : Grown p c c'' := by
  obtain ⟨added, hperm, hadded⟩ := h.pending
  obtain ⟨more, hperm', hmore⟩ := h'.pending
  refine ⟨h'.now.trans h.now, ⟨more ++ added, ?_, ?_⟩, fun ht => h'.timely (h.timely ht)⟩
  · rw [List.append_assoc]
    exact hperm'.trans (hperm.append_left more)
  · intro e he
    rcases List.mem_append.1 he with he | he
    · exact hmore e he
    · exact hadded e he

theorem Grown.mono (hpq : ∀ e, p e → q e) (h : Grown p c c') : Grown q c c' := by
  obtain ⟨added, hperm, hadded⟩ := h.pending
  exact ⟨h.now, ⟨added, hperm, fun e he => hpq e (hadded e he)⟩, h.timely⟩

/-- What was pending is still pending. -/
theorem Grown.mem (h : Grown p c c') {e : Event} (he : e ∈ c.pending) : e ∈ c'.pending := by
  obtain ⟨added, hperm, -⟩ := h.pending
  exact hperm.mem_iff.2 (List.mem_append_right added he)

/-- What is pending was so before or is of the sort that was scheduled. -/
theorem Grown.mem_or (h : Grown p c c') {e : Event} (he : e ∈ c'.pending) :
    p e ∨ e ∈ c.pending := by
  obtain ⟨added, hperm, hadded⟩ := h.pending
  rcases List.mem_append.1 (hperm.mem_iff.1 he) with he | he
  · exact .inl (hadded e he)
  · exact .inr he

/-- Events of another sort are as many as before. -/
theorem Grown.countP_eq (h : Grown p c c') {f : Event → Bool} (hf : ∀ e, p e → f e = false) :
    c'.pending.countP f = c.pending.countP f := by
  obtain ⟨added, hperm, hadded⟩ := h.pending
  have hnone : added.countP f = 0 :=
    List.countP_eq_zero.2 fun e he => by simp [hf e (hadded e he)]
  rw [hperm.countP_eq, List.countP_append, hnone, Nat.zero_add]

/-- An event is scheduled by adding it to the events that are pending. -/
theorem scheduleAt_eq_ok {time : Time} {kind : EventKind} {subject : Option Subject}
    (h : c.scheduleAt time kind subject = .ok c') :
    c'.now = c.now ∧ c.now ≤ time ∧
      c'.pending = Event.insertIn ⟨time, kind, subject, c.scheduled⟩ c.pending := by
  unfold scheduleAt at h
  split at h
  · cases h
  · next hpast =>
    cases h
    exact ⟨rfl, UInt64.not_lt.1 hpast, rfl⟩

theorem grown_scheduleAt {time : Time} {kind : EventKind} {subject : Option Subject}
    (h : c.scheduleAt time kind subject = .ok c') :
    Grown (fun e => e.time = time ∧ e.kind = kind ∧ e.subject = subject) c c' := by
  obtain ⟨hnow, hahead, hpending⟩ := scheduleAt_eq_ok h
  have hperm := Event.perm_insertIn ⟨time, kind, subject, c.scheduled⟩ c.pending
  refine ⟨hnow, ⟨[⟨time, kind, subject, c.scheduled⟩], ?_, by simp⟩, fun ht => ⟨?_, ?_⟩⟩
  · rw [hpending]
    exact hperm
  · rw [hpending]
    exact Event.pairwise_insertIn _ UInt64.le_trans
      (fun a _ ha => (Event.precedes_of_order_eq_lt ha).time_le)
      (fun a _ ha => (Event.precedes_of_order_ne_lt ha).time_le) ht.sorted
  · intro e he
    rw [hpending] at he
    rw [hnow]
    rcases List.mem_cons.1 (hperm.mem_iff.1 he) with rfl | he
    · exact hahead
    · exact ht.ahead e he

/-- An event is pending once it is scheduled. -/
theorem exists_mem_of_scheduleAt {time : Time} {kind : EventKind} {subject : Option Subject}
    (h : c.scheduleAt time kind subject = .ok c') :
    ∃ e ∈ c'.pending, e.time = time ∧ e.kind = kind ∧ e.subject = subject := by
  obtain ⟨-, -, hpending⟩ := scheduleAt_eq_ok h
  have hperm := Event.perm_insertIn ⟨time, kind, subject, c.scheduled⟩ c.pending
  refine ⟨⟨time, kind, subject, c.scheduled⟩, ?_, rfl, rfl, rfl⟩
  rw [hpending]
  exact hperm.mem_iff.2 List.mem_cons_self

theorem Arranged.scheduleAt {time : Time} {kind : EventKind} {subject : Option Subject}
    (h : c.Arranged) (hc : c.scheduleAt time kind subject = .ok c') : c'.Arranged := by
  obtain ⟨-, -, hpending⟩ := scheduleAt_eq_ok hc
  unfold Arranged
  rw [hpending]
  exact Event.pairwise_insertIn _ Event.Precedes.trans
    (fun _ _ => Event.precedes_of_order_eq_lt) (fun _ _ => Event.precedes_of_order_ne_lt) h

/-- The next event is the first of those that are pending, and its time becomes the present. -/
theorem next?_eq_some {e : Event} (h : c.next? = some (e, c')) :
    c.pending = e :: c'.pending ∧ c'.now = e.time := by
  unfold next? at h
  split at h
  · cases h
  · next a rest hpending =>
    cases h
    exact ⟨hpending, rfl⟩

/-- The clock stays timely when the next event is taken. -/
theorem Timely.next {e : Event} (h : c.Timely) (hnext : c.next? = some (e, c')) : c'.Timely := by
  obtain ⟨hpending, hnow⟩ := next?_eq_some hnext
  have hsorted := h.sorted
  rw [hpending, List.pairwise_cons] at hsorted
  constructor
  · exact hsorted.2
  · rw [hnow]
    exact hsorted.1

/-- The next event precedes all that are then left, and these stay arranged. -/
theorem Arranged.next {e : Event} (h : c.Arranged) (hnext : c.next? = some (e, c')) :
    c'.Arranged ∧ ∀ d ∈ c'.pending, e.Precedes d := by
  unfold Arranged at h
  rw [(next?_eq_some hnext).1, List.pairwise_cons] at h
  exact ⟨h.2, h.1⟩

/-- Time does not move on while an event is due now. -/
theorem Timely.now_eq_of_due {e d : Event} (h : c.Timely) (hnext : c.next? = some (e, c'))
    (hd : d ∈ c.pending) (hdue : d.time = c.now) : c'.now = c.now := by
  obtain ⟨hpending, hnow⟩ := next?_eq_some hnext
  have hsorted := h.sorted
  rw [hpending] at hsorted hd
  have hfirst : e.time ≤ d.time := by
    rcases List.mem_cons.1 hd with rfl | hd
    · exact UInt64.le_refl _
    · exact (List.pairwise_cons.1 hsorted).1 d hd
  have hpast : c.now ≤ e.time := h.ahead e (hpending ▸ List.mem_cons_self)
  rw [hnow]
  exact UInt64.le_antisymm (hdue ▸ hfirst) hpast

/-- An event that does not lie in the past can be scheduled. -/
theorem exists_scheduleAt {time : Time} (h : c.now ≤ time) (kind : EventKind)
    (subject : Option Subject) : ∃ c', c.scheduleAt time kind subject = .ok c' ∧
      c'.now = c.now ∧ c'.scheduled = c.scheduled + 1 ∧
      c'.pending.Perm (⟨time, kind, subject, c.scheduled⟩ :: c.pending) := by
  unfold scheduleAt
  rw [if_neg (UInt64.not_lt.2 h)]
  exact ⟨_, rfl, rfl, rfl, Event.perm_insertIn _ _⟩

theorem Strict.scheduleAt {time : Time} {kind : EventKind} {subject : Option Subject}
    (h : c.Strict) (hc : c.scheduleAt time kind subject = .ok c') : c'.Strict := by
  unfold Clock.scheduleAt at hc
  split at hc <;> cases hc
  have hserial (a : Event) (ha : a ∈ c.pending) : c.scheduled ≠ a.serial :=
    Nat.ne_of_gt (h.numbered a ha)
  refine ⟨Event.pairwise_insertIn _ Event.Before.trans (fun _ _ hlt => hlt) (fun a ha hlt => ?_)
    h.sorted, fun e he => ?_⟩
  · exact (Event.before_or_before (hserial a ha)).resolve_left hlt
  · rcases List.mem_cons.1 ((Event.perm_insertIn _ _).mem_iff.1 he) with rfl | he
    · exact Nat.lt_succ_self _
    · exact Nat.lt_succ_of_lt (h.numbered e he)

/-- The next event is due before all that are then left. -/
theorem Strict.next {e : Event} (h : c.Strict) (hnext : c.next? = some (e, c')) :
    c'.Strict ∧ ∀ d ∈ c'.pending, e.Before d := by
  have hsorted := h.sorted
  rw [(next?_eq_some hnext).1, List.pairwise_cons] at hsorted
  refine ⟨⟨hsorted.2, fun d hd => ?_⟩, hsorted.1⟩
  have hscheduled : c'.scheduled = c.scheduled := by
    unfold next? at hnext
    split at hnext <;> cases hnext
    rfl
  rw [hscheduled]
  exact h.numbered d ((next?_eq_some hnext).1 ▸ List.mem_cons_of_mem e hd)

/-- Of what is pending only the next event is taken. -/
theorem Strict.mem_next_iff {e : Event} (h : c.Strict) (hnext : c.next? = some (e, c'))
    (d : Event) : d ∈ c'.pending ↔ d ∈ c.pending ∧ d ≠ e := by
  rw [(next?_eq_some hnext).1, List.mem_cons]
  constructor
  · intro hd
    refine ⟨.inr hd, fun heq => ?_⟩
    have hbefore : e.Before d := (h.next hnext).2 d hd
    rw [heq] at hbefore
    exact hbefore.asymm hbefore
  · rintro ⟨rfl | hd, hne⟩
    · exact absurd rfl hne
    · exact hd

end Clock

end DialARide
