import DialARide.Proofs.Ride.Upcoming
import DialARide.Ride.Services

/-!
# What the services do together

All that the services do while an event is handled is a sequence of turns: one service acts, and
the answers to what it submitted are heard by those that they concern. What every act and every
answer keeps is kept by all services.
-/

namespace DialARide

namespace Service

/-- The service once rejections were published, one after the other. -/
def hear (s : Service) (published : List Rejection) : Service :=
  published.foldl (fun s r => s.deliver s.subscriptions r) s

variable {s : Service} {now : Time} {occasion : Occasion}

theorem hear_append (s : Service) (l m : List Rejection) : s.hear (l ++ m) = (s.hear l).hear m :=
  List.foldl_append

/-- Rejections of the mode are added to the mailbox, and nothing else changes. -/
theorem exists_hear (s : Service) (published : List Rejection) :
    ∃ more, s.hear published = { s with mailbox := s.mailbox ++ more } ∧
      ∀ r ∈ more, r ∈ published ∧ r.mode = s.mode := by
  induction published generalizing s with
  | nil => exact ⟨[], by simp [hear], by simp⟩
  | cons r rest ih =>
    obtain ⟨more, heq, hmore⟩ := ih (s.deliver s.subscriptions r)
    unfold deliver at heq hmore
    by_cases hm : r.mode = s.mode
    · rw [if_pos hm] at heq hmore
      refine ⟨List.replicate s.subscriptions r ++ more, ?_, fun q hq => ?_⟩
      · rw [hear, List.foldl_cons, deliver, if_pos hm, ← hear, heq, List.append_assoc]
      · rcases List.mem_append.1 hq with hq | hq
        · obtain rfl := List.eq_of_mem_replicate hq
          exact ⟨List.mem_cons_self, hm⟩
        · exact ⟨List.mem_cons_of_mem r (hmore q hq).1, (hmore q hq).2⟩
    · rw [if_neg hm] at heq hmore
      refine ⟨more, ?_, fun q hq => ⟨List.mem_cons_of_mem r (hmore q hq).1, (hmore q hq).2⟩⟩
      rw [hear, List.foldl_cons, deliver, if_neg hm, ← hear, heq]

@[simp] theorem bound_hear (s : Service) (l : List Rejection) : (s.hear l).bound = s.bound := by
  obtain ⟨more, heq, -⟩ := s.exists_hear l
  rw [heq]

@[simp] theorem mode_hear (s : Service) (l : List Rejection) : (s.hear l).mode = s.mode := by
  obtain ⟨more, heq, -⟩ := s.exists_hear l
  rw [heq]

@[simp] theorem closed_hear (s : Service) (l : List Rejection) :
    (s.hear l).closed = s.closed := by
  obtain ⟨more, heq, -⟩ := s.exists_hear l
  rw [heq]

/-- An orderly service is orderly whatever it hears. -/
theorem Orderly.hear (h : s.Orderly) (published : List Rejection) : (s.hear published).Orderly := by
  obtain ⟨more, heq, -⟩ := s.exists_hear published
  rw [heq]
  exact { h with }

end Service

namespace Services

/-- The rejections with which the shared optimizer answers submissions. -/
def answers (h : Services) (submitted : List Request) : List Rejection :=
  submitted.filterMap fun r => (h.verdict r).map fun cause =>
    { time := r.submittedAt, mode := r.mode, request := r.id, cause }

/-- The rejections that the turn of a service leads to. -/
def answersTo (h : Services) (t : Turn) : List Rejection :=
  if t.service.ownOptimizer then [] else h.answers t.submitted

variable {h h' h'' : Services} {now : Time} {occasion : Occasion} {i : Nat} {s : Service}
  {t : Turn}

theorem members_publish (h : Services) (r : Rejection) :
    (h.publish r).members = h.members.map (·.hear [r]) := rfl

/-- The services stand in the same order after a publication. -/
theorem modes_publish (h : Services) (r : Rejection) :
    (h.publish r).members.map Service.mode = h.members.map Service.mode := by
  rw [members_publish, List.map_map]
  exact List.map_congr_left fun s _ => s.mode_hear [r]

/-- Each submission is answered before the next one. -/
theorem foldl_submitShared (h : Services) (submitted : List Request) :
    (submitted.foldl submitShared h).members = h.members.map (·.hear (h.answers submitted)) := by
  induction submitted generalizing h with
  | nil => simp [answers, Service.hear]
  | cons r rest ih =>
    rw [List.foldl_cons, ih]
    cases hv : h.verdict r with
    | none =>
      have hsame : h.submitShared r = { h with submitted := h.submitted ++ [r] } := by
        simp [submitShared, hv]
      simp [hsame, answers, hv]
    | some cause =>
      let answer : Rejection := { time := r.submittedAt, mode := r.mode, request := r.id, cause }
      have hnext : h.submitShared r =
          { h with submitted := h.submitted ++ [r] }.publish answer := by
        simp [submitShared, hv, answer]
      have hanswers : h.answers (r :: rest) = [answer] ++ h.answers rest := by
        simp [answers, hv, answer]
      rw [hnext, members_publish, List.map_map, hanswers]
      refine List.map_congr_left fun s _ => ?_
      exact (s.hear_append [answer] (h.answers rest)).symm

/-- A turn replaces the service that acts, and all services hear the answers. -/
theorem members_commit (h : Services) (i : Nat) (t : Turn) :
    (h.commit i t).members = (h.members.set i t.service).map (·.hear (h.answersTo t)) := by
  unfold commit answersTo
  split
  · simp [Service.hear]
  · exact foldl_submitShared _ t.submitted

/-- Submissions are put down in order, and the optimizer stays the same. -/
theorem foldl_submitShared_log (h : Services) (submitted : List Request) :
    (submitted.foldl submitShared h).submitted = h.submitted ++ submitted ∧
      (submitted.foldl submitShared h).verdict = h.verdict := by
  induction submitted generalizing h with
  | nil => exact ⟨(List.append_nil _).symm, rfl⟩
  | cons r rest ih =>
    obtain ⟨hlog, hverdict⟩ := ih (h.submitShared r)
    have hfirst : (h.submitShared r).submitted = h.submitted ++ [r] ∧
        (h.submitShared r).verdict = h.verdict := by
      cases hv : h.verdict r <;> simp [submitShared, hv, publish]
    rw [List.foldl_cons, hlog, hverdict, hfirst.1, hfirst.2, List.append_assoc]
    exact ⟨rfl, rfl⟩

theorem submitted_commit (h : Services) (i : Nat) (t : Turn) : (h.commit i t).submitted =
    h.submitted ++ if t.service.ownOptimizer then [] else t.submitted := by
  unfold commit
  split
  · exact (List.append_nil _).symm
  · exact (foldl_submitShared_log _ t.submitted).1

theorem verdict_commit (h : Services) (i : Nat) (t : Turn) :
    (h.commit i t).verdict = h.verdict := by
  unfold commit
  split
  · rfl
  · exact (foldl_submitShared_log _ t.submitted).2

/-- A turn without submissions replaces the service that acts and does nothing else. -/
theorem commit_quiet (h : Services) (i : Nat) (ht : t.submitted = []) :
    h.commit i t = { h with members := h.members.set i t.service } := by
  unfold commit
  rw [ht]
  split <;> rfl

/-- The turn of a service that changes nothing. -/
theorem commit_self (hs : h.members[i]? = some s) : h.commit i { service := s } = h := by
  obtain ⟨hi, rfl⟩ := List.getElem?_eq_some_iff.1 hs
  rw [commit_quiet h i rfl]
  simp only [List.set_getElem_self hi]

/-- What is submitted in a turn is answered under the name and the mode of the request. -/
theorem exists_of_mem_answersTo {r : Rejection} (hr : r ∈ h.answersTo t) :
    ∃ q ∈ t.submitted, r.request = q.id ∧ r.mode = q.mode := by
  unfold answersTo at hr
  split at hr
  · cases hr
  · obtain ⟨q, hq, heq⟩ := List.mem_filterMap.1 hr
    obtain ⟨cause, -, rfl⟩ := Option.map_eq_some_iff.1 heq
    exact ⟨q, hq, rfl, rfl⟩

/-- Turns of services one after the other, in each of which one service acts. -/
inductive Turns (now : Time) (occasion : Occasion) : Services → Services → List Call → Prop
  | nil (h : Services) : Turns now occasion h h []
  | cons {h h' : Services} {i : Nat} {s : Service} {t : Turn} {calls : List Call} :
      h.members[i]? = some s → s.Act now occasion t → Turns now occasion (h.commit i t) h' calls →
      Turns now occasion h h' (t.calls ++ calls)

/-- One act is a turn. -/
theorem turns_of_act (hs : h.members[i]? = some s) (ha : s.Act now occasion t) :
    Turns now occasion h (h.commit i t) t.calls := by
  have hturns := Turns.cons hs ha (.nil (h.commit i t))
  rwa [List.append_nil] at hturns

/-- Turns may follow upon turns. -/
theorem Turns.append {calls more : List Call} (ht : Turns now occasion h h' calls)
    (ht' : Turns now occasion h' h'' more) : Turns now occasion h h'' (calls ++ more) := by
  induction ht with
  | nil => exact ht'
  | cons hs ha _ ih =>
    rw [List.append_assoc]
    exact .cons hs ha (ih ht')

/-- Acts of one service that submit nothing are turns. -/
theorem turns_of_acts (hs : h.members[i]? = some s) (ha : s.Acts now occasion t)
    (ht : t.submitted = []) : Turns now occasion h (h.commit i t) t.calls := by
  induction ha generalizing h with
  | nil s =>
    rw [commit_self hs]
    exact .nil h
  | @cons s t u hact _ ih =>
    obtain ⟨ht₁, ht₂⟩ := List.append_eq_nil_iff.1 ht
    have hi : i < h.members.length := (List.getElem?_eq_some_iff.1 hs).1
    have hmember : (h.commit i t).members[i]? = some t.service := by
      rw [commit_quiet h i ht₁]
      simp [hi]
    have hcommit : (h.commit i t).commit i u = h.commit i (t.andThen u) := by
      rw [commit_quiet _ i ht₂, commit_quiet h i ht₁, commit_quiet h i ht]
      simp [Turn.andThen]
    rw [← hcommit]
    exact .cons hs hact (ih hmember ht₂)

/-! ## What all services keep -/

/-- A service after a turn has heard the answers, and is the one that acted or was there before. -/
theorem exists_of_getElem?_commit {j : Nat} {s' : Service}
    (hs' : (h.commit i t).members[j]? = some s') : ∃ u, s' = u.hear (h.answersTo t) ∧
      (u = t.service ∨ j ≠ i ∧ h.members[j]? = some u) := by
  rw [members_commit, List.getElem?_map, Option.map_eq_some_iff] at hs'
  obtain ⟨u, hu, rfl⟩ := hs'
  refine ⟨u, rfl, ?_⟩
  rw [List.getElem?_set] at hu
  split at hu
  · split at hu
    · exact .inl (Option.some.inj hu).symm
    · cases hu
  · next hj => exact .inr ⟨Ne.symm hj, hu⟩

theorem exists_of_mem_commit {s' : Service} (hs' : s' ∈ (h.commit i t).members) :
    ∃ u, s' = u.hear (h.answersTo t) ∧ (u = t.service ∨ u ∈ h.members) := by
  obtain ⟨j, hj⟩ := List.mem_iff_getElem?.1 hs'
  obtain ⟨u, hu, hcases⟩ := exists_of_getElem?_commit hj
  exact ⟨u, hu, hcases.imp_right fun hother => List.mem_of_getElem? hother.2⟩

/-- The service that acted has heard the answers. -/
theorem getElem?_commit (hs : h.members[i]? = some s) (t : Turn) :
    (h.commit i t).members[i]? = some (t.service.hear (h.answersTo t)) := by
  have hi : i < h.members.length := (List.getElem?_eq_some_iff.1 hs).1
  rw [members_commit, List.getElem?_map, List.getElem?_set, if_pos rfl, if_pos hi]
  rfl

/-- What is kept whatever is heard holds of all services after a publication. -/
theorem forall_members_publish {P : Service → Prop} (hhear : ∀ (s : Service) l, P s → P (s.hear l))
    (r : Rejection) (hP : ∀ s ∈ h.members, P s) : ∀ s ∈ (h.publish r).members, P s := by
  intro s hs
  rw [members_publish] at hs
  obtain ⟨u, hu, rfl⟩ := List.mem_map.1 hs
  exact hhear u [r] (hP u hu)

/-- What every act keeps, whatever is heard, holds of all services after any turns. -/
theorem Turns.forall_members {P : Service → Prop}
    (hact : ∀ (s : Service) (t : Turn), P s → s.Act now occasion t → P t.service)
    (hhear : ∀ (s : Service) l, P s → P (s.hear l)) {calls : List Call}
    (ht : Turns now occasion h h' calls) (hP : ∀ s ∈ h.members, P s) : ∀ s ∈ h'.members, P s := by
  induction ht with
  | nil => exact hP
  | cons hs ha _ ih =>
    refine ih fun s' hs' => ?_
    obtain ⟨u, rfl, hu⟩ := exists_of_mem_commit hs'
    refine hhear u _ ?_
    rcases hu with rfl | hu
    · exact hact _ _ (hP _ (List.mem_of_getElem? hs)) ha
    · exact hP u hu

/-- The services stand in the same order after a turn. -/
theorem modes_commit (hs : h.members[i]? = some s) (hmode : t.service.mode = s.mode) :
    (h.commit i t).members.map Service.mode = h.members.map Service.mode := by
  have hsame : Service.mode ∘ (·.hear (h.answersTo t)) = Service.mode :=
    funext fun u => Service.mode_hear u _
  rw [members_commit, List.map_map, hsame, List.map_set, hmode]
  obtain ⟨hi, rfl⟩ := List.getElem?_eq_some_iff.1 hs
  rw [← List.getElem_map Service.mode (h := by simpa using hi)]
  exact List.set_getElem_self _

/-- The services stand in the same order after any turns. -/
theorem Turns.modes {calls : List Call} (ht : Turns now occasion h h' calls) :
    h'.members.map Service.mode = h.members.map Service.mode := by
  induction ht with
  | nil => rfl
  | cons hs ha _ ih => exact ih.trans (modes_commit hs ha.terms.1)

/-- All that is observed has the time of the turns. -/
theorem Turns.time_of_observed {calls : List Call} (ht : Turns now occasion h h' calls)
    {o : Observation} (ho : o ∈ observed calls) : o.time = now := by
  induction ht with
  | nil => cases ho
  | cons _ ha _ ih =>
    rw [observed_append, List.mem_append] at ho
    exact ho.elim ha.time_of_observed ih

/-- Where each mode is served by one service, the mode tells its position. -/
theorem position_eq_of_modes {j : Nat} {u : Service} (hmodes : (h.members.map Service.mode).Nodup)
    (hs : h.members[i]? = some s) (hu : h.members[j]? = some u) (hmode : u.mode = s.mode) :
    j = i := by
  have hj : j < (h.members.map Service.mode).length := by
    simpa using (List.getElem?_eq_some_iff.1 hu).1
  apply (List.getElem?_inj hj hmodes).1
  simp [hs, hu, hmode]

/-! ## Calls on the services -/

theorem position?_eq_some {mode : ModeId} (hi : h.position? mode = some i) :
    ∃ s, h.members[i]? = some s ∧ s.closed = false ∧ s.mode = mode := by
  unfold position? at hi
  obtain ⟨hlt, hs, -⟩ := List.findIdx?_eq_some_iff_getElem.1 hi
  refine ⟨h.members[i], List.getElem?_eq_getElem hlt, ?_⟩
  simpa using hs

/-- A mode without position is that of no open service. -/
theorem mode_ne_of_position? {mode : ModeId} (hnone : h.position? mode = none)
    (hs : s ∈ h.members) (hopen : s.closed = false) : s.mode ≠ mode := by
  unfold position? at hnone
  have hfound := List.findIdx?_eq_none_iff.1 hnone s hs
  simpa [hopen] using hfound

/-- A departure that is not turned down is one turn of an open service. -/
theorem depart_eq_ok {who : Departing} {link : LinkId} {taken : Bool} {calls : List Call}
    (hd : h.depart now who link = .ok (taken, h', calls)) :
    (taken = false ∧ h' = h ∧ calls = []) ∨
      (taken = true ∧ ∃ i s t, h.members[i]? = some s ∧ s.closed = false ∧
        s.depart now who link = .ok (some t) ∧ h' = h.commit i t ∧ calls = t.calls) := by
  unfold depart at hd
  split at hd
  · cases hd
    exact .inl ⟨rfl, rfl, rfl⟩
  · next i hi =>
    obtain ⟨s, hs, hopen, -⟩ := position?_eq_some hi
    unfold departAt at hd
    simp only [hs] at hd
    cases ht : s.depart now who link with
    | error fault => simp [ht, Bind.bind, Except.bind] at hd
    | ok turn =>
      cases turn with
      | none =>
        simp only [ht, Bind.bind, Except.bind, Pure.pure, Except.pure, Except.ok.injEq,
          Prod.mk.injEq] at hd
        obtain ⟨rfl, rfl, rfl⟩ := hd
        exact .inl ⟨rfl, rfl, rfl⟩
      | some t =>
        simp only [ht, Bind.bind, Except.bind, Pure.pure, Except.pure, Except.ok.injEq,
          Prod.mk.injEq] at hd
        obtain ⟨rfl, rfl, rfl⟩ := hd
        exact .inr ⟨rfl, i, s, t, hs, hopen, ht, rfl, rfl⟩

/-- A stop finds its passenger or waits from now on. -/
theorem awaitPassenger_eq (hs : h.members[i]? = some s) (stop : EntityId) (id : RequestId) :
    h.awaitPassenger i stop id = if s.bound.contains id then (true, h) else (false, h.commit i
      { service := { s with waitingStops := s.waitingStops.insert id stop } }) := by
  unfold awaitPassenger Service.awaitPassenger
  rw [hs]
  obtain ⟨hi, rfl⟩ := List.getElem?_eq_some_iff.1 hs
  by_cases hb : h.members[i].bound.contains id = true
  · simp [hb, List.set_getElem_self hi]
  · simp [hb, commit_quiet h i]

theorem pickUp_eq (hs : h.members[i]? = some s) (vehicle : VehicleId) (id : RequestId)
    (now : Time) : h.pickUp i vehicle id now = match s.pickUp vehicle id now with
      | none => (false, h, [])
      | some t => (true, h.commit i t, t.calls) := by
  unfold pickUp
  rw [hs]
  rfl

/-- The end of a ride is one turn of the service. -/
theorem act_eq_ok {α : Type} {f : Service → Except Fault (α × Turn)} {a : α} {calls : List Call}
    (ha : h.act i f = .ok (some (a, h', calls))) :
    ∃ s t, h.members[i]? = some s ∧ f s = .ok (a, t) ∧ h' = h.commit i t ∧ calls = t.calls := by
  unfold act at ha
  split at ha
  · cases ha
  · next s hs =>
    cases hf : f s with
    | error fault => simp [hf, Bind.bind, Except.bind] at ha
    | ok outcome =>
      simp only [hf, Bind.bind, Except.bind, Pure.pure, Except.pure, Except.ok.injEq,
        Option.some.injEq, Prod.mk.injEq] at ha
      obtain ⟨rfl, rfl, rfl⟩ := ha
      exact ⟨s, outcome.2, hs, hf, rfl, rfl⟩

/-- The step of a service is a sequence of turns. -/
theorem turns_stepAt {n : Nat} {calls : List Call} (hstep : h.stepAt i now = (n, h', calls)) :
    Turns now .other h h' calls := by
  unfold stepAt at hstep
  split at hstep
  · cases hstep
    exact .nil h
  · next s hs =>
    cases hstep
    exact turns_of_acts hs (s.acts_step now .other) (Service.submitted_applyRejections now _ _)

/-- The steps of all services are a sequence of turns. -/
theorem turns_stepEach {positions : List Nat} {ns : List Nat} {calls : List Call}
    (hstep : stepEach now h positions = (ns, h', calls)) : Turns now .other h h' calls := by
  induction positions generalizing h ns calls with
  | nil =>
    cases hstep
    exact .nil _
  | cons i rest ih =>
    unfold stepEach at hstep
    rcases hfirst : h.stepAt i now with ⟨n, h₁, first⟩
    rcases hmore : stepEach now h₁ rest with ⟨ms, h₂, more⟩
    simp only [hfirst, hmore, Prod.mk.injEq] at hstep
    obtain ⟨-, rfl, rfl⟩ := hstep
    exact (turns_stepAt hfirst).append (ih hmore)

/-- The step of a service submits nothing. -/
theorem submitted_stepAt (h : Services) (i : Nat) (now : Time) :
    (h.stepAt i now).2.1.submitted = h.submitted := by
  unfold stepAt
  split
  · rfl
  · next s _ =>
    have hquiet : (s.step now).submitted = [] := Service.submitted_applyRejections now _ _
    show (h.commit i (s.step now)).submitted = h.submitted
    rw [commit_quiet h i hquiet]

/-- The steps of all services submit nothing. -/
theorem submitted_stepEach (h : Services) (positions : List Nat) (now : Time) :
    (stepEach now h positions).2.1.submitted = h.submitted := by
  induction positions generalizing h with
  | nil => rfl
  | cons i rest ih => exact (ih _).trans (h.submitted_stepAt i now)

end Services

end DialARide
