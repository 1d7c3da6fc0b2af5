import DialARide.Proofs.Ride.Effect
import DialARide.Proofs.Ride.Standing
import DialARide.Proofs.World.Reach

/-!
# The situation of a traveler

What a traveler is doing, the requests to which the services bind the traveler, and the departures
that are pending always agree: a traveler at an activity is to depart once and bound nowhere, one
who waits or rides is bound once, and one whose journey is over is neither bound nor to depart.
Every act of a service, with the calls that it makes, takes the traveler concerned from one
situation to another and leaves all others where they are.
-/

namespace DialARide

/-- What a traveler is doing agrees with the bindings and the number of departures pending. -/
def Situated (h : Services) (departures : Nat) (id : EntityId) (t : Traveler) : Prop :=
  match t.state with
  | .activity => h.Unbound id ∧ departures = if t.plan.legs = [] then 0 else 1
  | .waiting => h.BoundOnce id (· ≠ .pickedUp) ∧ departures = 0
  | .inVehicle => h.BoundOnce id (· = .pickedUp) ∧ t.vehicle.isSome = true ∧ departures = 0
  | .arrived | .aborted => h.Unbound id ∧ t.vehicle = none ∧ departures = 0

variable {h h' : Services} {id : EntityId} {t : Traveler} {departures : Nat}

/-- A traveler who is bound waits or rides, and is bound once and to depart no more. -/
theorem Situated.of_binding (hsit : Situated h departures id t) {i : Nat} {r : RequestId}
    {b : Binding} (hb : h.binding? i r = some b) (hid : b.traveler = id) :
    departures = 0 ∧ h.BoundOnlyAt id i r := by
  unfold Situated at hsit
  cases hstate : t.state with
  | activity =>
    rw [hstate] at hsit
    exact absurd hid (hsit.1 i r b hb)
  | waiting =>
    rw [hstate] at hsit
    exact ⟨hsit.2, (hsit.1.at hb hid).2⟩
  | inVehicle =>
    rw [hstate] at hsit
    exact ⟨hsit.2.2, (hsit.1.at hb hid).2⟩
  | arrived | aborted =>
    rw [hstate] at hsit
    exact absurd hid (hsit.1 i r b hb)

/-- A traveler who is to depart is at an activity and bound nowhere, and departs once. -/
theorem Situated.of_departure (hsit : Situated h departures id t) (hpos : departures ≠ 0) :
    t.state = .activity ∧ t.plan.legs ≠ [] ∧ h.Unbound id ∧ departures = 1 := by
  unfold Situated at hsit
  cases hstate : t.state with
  | activity =>
    rw [hstate] at hsit
    obtain ⟨hunbound, hcount⟩ := hsit
    split at hcount
    · exact absurd hcount hpos
    · next hlegs => exact ⟨rfl, hlegs, hunbound, hcount⟩
  | waiting =>
    rw [hstate] at hsit
    exact absurd hsit.2 hpos
  | inVehicle | arrived | aborted =>
    rw [hstate] at hsit
    exact absurd hsit.2.2 hpos

namespace World

variable {w w' : World} {now : Time} {occasion : Occasion} {i : Nat} {s : Service}

/-- The traveler is in a situation, with a leg to travel if one is to depart. -/
def SettledAt (w : World) (h : Services) (id : EntityId) : Prop :=
  ∀ t, w.traveler? id = some t → Situated h (w.departures id) id t ∧
    (t.state = .activity → t.plan.legs ≠ [] → t.plan.current? ≠ none)

/-- The services are orderly, and every traveler is in a situation. The services are named apart
from the world since calls are put into effect after the services have acted. -/
structure Settled (w : World) (h : Services) : Prop where
  orderly : ∀ s ∈ h.members, s.Orderly
  travelers : ∀ id, w.SettledAt h id

/-- A traveler stays in the situation while nothing about the traveler changes. -/
theorem SettledAt.congr (hw : w.SettledAt h id) (ht : w'.traveler? id = w.traveler? id)
    (hd : ∀ t, w.traveler? id = some t → w'.departures id = w.departures id)
    (hunbound : h.Unbound id → h'.Unbound id)
    (honce : ∀ p, h.BoundOnce id p → h'.BoundOnce id p) : w'.SettledAt h' id := by
  intro t ht'
  rw [ht] at ht'
  obtain ⟨hsit, hcurrent⟩ := hw t ht'
  refine ⟨?_, hcurrent⟩
  rw [hd t ht']
  unfold Situated at hsit ⊢
  cases hstate : t.state with
  | activity | arrived | aborted =>
    rw [hstate] at hsit
    exact ⟨hunbound hsit.1, hsit.2⟩
  | waiting | inVehicle =>
    rw [hstate] at hsit
    exact ⟨honce _ hsit.1, hsit.2⟩

/-- All travelers stay in their situations while neither travelers nor departures change. -/
theorem Settled.congr (hw : w.Settled h) (ht : ∀ id, w'.traveler? id = w.traveler? id)
    (hd : ∀ id t, w.traveler? id = some t → w'.departures id = w.departures id) : w'.Settled h :=
  ⟨hw.orderly, fun id => (hw.travelers id).congr (ht id) (hd id) (fun hu => hu) fun _ ho => ho⟩

/-! ## Acts and the calls that they make -/

/-- An act that leaves the bindings alone leaves all situations alone. -/
theorem Settled.commit_quiet (hw : w.Settled h) (hs : h.members[i]? = some s) {t : Turn}
    (ha : s.Act now occasion t) (hbound : t.service.bound = s.bound) :
    w.Settled (h.commit i t) := by
  have horderly := Services.Turns.forall_members
    (fun u v hu hv => hu.act hv) (fun u l hu => hu.hear l) (Services.turns_of_act hs ha) hw.orderly
  have hsame := Services.binding?_commit_of_eq hs hbound
  refine ⟨horderly, fun id => (hw.travelers id).congr rfl (fun _ _ => rfl) ?_ ?_⟩
  · intro hu j r b hb
    exact hu j r b ((hsame j r).symm.trans hb)
  · rintro p ⟨j, r, b, hb, htraveler, hp, honly⟩
    refine ⟨j, r, b, (hsame j r).trans hb, htraveler, hp, fun k r' b' hb' => ?_⟩
    exact honly k r' b' ((hsame k r').symm.trans hb')

/-- An act that changes the binding of one traveler settles all if it settles that one. -/
theorem Settled.commit_replaced (x : EntityId) (hw : ∀ j, j ≠ x → w.SettledAt h j)
    (horderly : ∀ s ∈ h'.members, s.Orderly) {r : RequestId} {new : Option Binding}
    (hr : Services.Replaced h h' i r new)
    (hold : ∀ b, h.binding? i r = some b → b.traveler = x)
    (hnew : ∀ b, new = some b → b.traveler = x)
    (ht : ∀ j, j ≠ x → w'.traveler? j = w.traveler? j)
    (hd : ∀ j, j ≠ x → w'.departures j = w.departures j) (hx : w'.SettledAt h' x) :
    w'.Settled h' := by
  refine ⟨horderly, fun j => ?_⟩
  by_cases hj : j = x
  · subst hj
    exact hx
  · refine (hw j hj).congr (ht j hj) (fun _ _ => hd j hj) ?_ fun p => ?_
    · exact hr.unbound_of_unbound fun b hb hbj => hj (hbj.symm.trans (hnew b hb))
    · exact hr.boundOnce_of_boundOnce (fun b hb hbj => hj (hbj.symm.trans (hold b hb)))
        fun b hb hbj => hj (hbj.symm.trans (hnew b hb))

/-- A passenger who boards rides from then on. -/
theorem Settled.board (hw : w.Settled h) (vehicle : VehicleId)
    (horderly : ∀ s ∈ h'.members, s.Orderly) {r : RequestId} {b : Binding}
    (hb : h.binding? i r = some b)
    (hr : Services.Replaced h h' i r (some { b with status := .pickedUp })) :
    (w.changeTraveler b.traveler
      ({ · with state := .inVehicle, vehicle := some vehicle })).Settled h' := by
  refine .commit_replaced b.traveler (fun j _ => hw.travelers j) horderly hr ?_ ?_ ?_
    (fun j _ => rfl) ?_
  · intro b' hb'
    obtain rfl := Option.some.inj (hb.symm.trans hb')
    rfl
  · rintro b' hb'
    obtain rfl := Option.some.inj hb'
    rfl
  · intro j hj
    rw [traveler?_changeTraveler, if_neg hj.symm]
  · intro t ht
    rw [traveler?_changeTraveler, if_pos rfl, Option.map_eq_some_iff] at ht
    obtain ⟨t, ht, rfl⟩ := ht
    obtain ⟨hcount, honly⟩ := (hw.travelers b.traveler t ht).1.of_binding hb rfl
    exact ⟨⟨hr.boundOnce rfl rfl honly, rfl, hcount⟩, by simp⟩

/-- A passenger who alights is at an activity until the next departure, or has arrived. -/
theorem Settled.alight (hw : w.Settled h) (horderly : ∀ s ∈ h'.members, s.Orderly) {r : RequestId}
    {b : Binding} {link : LinkId} (hb : h.binding? i r = some b)
    (hr : Services.Replaced h h' i r none) (ha : w.alight b.traveler link now = .ok w') :
    w'.Settled h' := by
  have hold (b' : Binding) (hb' : h.binding? i r = some b') : b'.traveler = b.traveler := by
    obtain rfl := Option.some.inj (hb.symm.trans hb')
    rfl
  have hnew (b' : Binding) (hb' : none = some b') : b'.traveler = b.traveler := nomatch hb'
  cases ht : w.traveler? b.traveler with
  | none =>
    simp only [World.alight, ht, Except.ok.injEq] at ha
    subst ha
    exact .commit_replaced b.traveler (fun j _ => hw.travelers j) horderly hr hold hnew
      (fun j _ => rfl) (fun j _ => rfl) fun t ht' => by simp [ht] at ht'
  | some t =>
    obtain ⟨hcount, honly⟩ := (hw.travelers b.traveler t ht).1.of_binding hb rfl
    rcases alight_eq_ok ht ha with ⟨hlast, rfl⟩ | ⟨next, hnext, hs⟩
    · refine .commit_replaced b.traveler (fun j _ => hw.travelers j) horderly hr hold hnew
        (fun j hj => ?_) (fun j _ => rfl) fun t' ht' => ?_
      · rw [traveler?_changeTraveler, if_neg hj.symm]
      · rw [traveler?_changeTraveler, if_pos rfl, ht] at ht'
        obtain rfl := Option.some.inj ht'
        exact ⟨⟨hr.unbound honly, rfl, hcount⟩, by simp⟩
    · have hdepartures := departures_schedule hs
      obtain ⟨clock, -, rfl⟩ := schedule_eq_ok hs
      refine .commit_replaced b.traveler (fun j _ => hw.travelers j) horderly hr hold hnew
        (fun j hj => ?_) (fun j hj => ?_) fun t' ht' => ?_
      · exact (traveler?_changeTraveler w b.traveler j _).trans (if_neg hj.symm)
      · rw [hdepartures, if_neg hj.symm]
        rfl
      · have ht' := (traveler?_changeTraveler w b.traveler b.traveler _).symm.trans ht'
        rw [if_pos rfl, ht] at ht'
        obtain rfl := Option.some.inj ht'
        have hlegs : t.plan.advance.legs ≠ [] := fun hnil => by
          simp [Plan.current?, hnil] at hnext
        refine ⟨⟨hr.unbound honly, ?_⟩, fun _ _ => by simp [hnext]⟩
        rw [hdepartures, if_pos rfl, if_neg hlegs]
        exact congrArg (· + 1) hcount

/-- A passenger whose request is rejected gives up the journey. -/
theorem Settled.abort (hw : w.Settled h) (horderly : ∀ s ∈ h'.members, s.Orderly) {r : RequestId}
    {b : Binding} (hb : h.binding? i r = some b) (hr : Services.Replaced h h' i r none) :
    (w.abort b.traveler).Settled h' := by
  refine .commit_replaced b.traveler (fun j _ => hw.travelers j) horderly hr ?_ ?_ ?_
    (fun j _ => rfl) ?_
  · intro b' hb'
    obtain rfl := Option.some.inj (hb.symm.trans hb')
    rfl
  · intro b' hb'
    cases hb'
  · intro j hj
    exact (traveler?_changeTraveler w b.traveler j _).trans (if_neg hj.symm)
  · intro t' ht'
    have hchanged := (traveler?_changeTraveler w b.traveler b.traveler _).symm.trans ht'
    rw [if_pos rfl, Option.map_eq_some_iff] at hchanged
    obtain ⟨t, ht, rfl⟩ := hchanged
    obtain ⟨hcount, honly⟩ := (hw.travelers b.traveler t ht).1.of_binding hb rfl
    exact ⟨⟨hr.unbound honly, rfl, hcount⟩, by simp⟩

/-- Whatever a service does while nobody departs, with the calls that it makes, settles the
traveler whom it concerns. -/
theorem Settled.act (hw : w.Settled h) (hs : h.members[i]? = some s)
    (hoccasion : ∀ id, occasion ≠ .departure id) {t : Turn} (ha : s.Act now occasion t)
    (hp : w.performAll t.calls = .ok w') : w'.Settled (h.commit i t) := by
  have hservice : s.Orderly := hw.orderly s (List.mem_of_getElem? hs)
  have horderly := Services.Turns.forall_members
    (fun u v hu hv => hu.act hv) (fun u l hu => hu.hear l) (Services.turns_of_act hs ha) hw.orderly
  cases hservice.effect ha with
  | quiet hbound hcalls =>
    rw [hcalls] at hp
    cases hp
    exact hw.commit_quiet hs ha hbound
  | bound o b ready hwho => exact absurd hwho (hoccasion b.traveler)
  | declined o traveler hwho => exact absurd hwho (hoccasion traveler)
  | boarded o b vehicle hb hstatus hkind hvehicle hbound hcalls =>
    have hr := Services.replaced_commit (t := t) hs o.request
      (some { b with status := .pickedUp }) (by rw [hbound]; simp) fun id' hid => by
        rw [hbound, Table.find?_insert, if_neg (Ne.symm hid)]
    rw [hcalls] at hp
    obtain ⟨w₁, hboard, hrest⟩ := performAll_cons_eq_ok hp
    cases hboard
    cases hrest
    have hsettled := hw.board vehicle horderly ((Services.binding?_eq hs o.request).trans hb) hr
    exact hsettled.congr (fun _ => rfl) fun _ _ _ => rfl
  | alighted o b vehicle hb hkind hvehicle hbound hcalls =>
    have hr := Services.replaced_commit (t := t) hs o.request none (by rw [hbound]; simp)
      fun id' hid => by rw [hbound, Table.find?_erase, if_neg (Ne.symm hid)]
    rw [hcalls] at hp
    obtain ⟨w₁, hobserve, hrest⟩ := performAll_cons_eq_ok hp
    obtain ⟨w₂, halight, hnil⟩ := performAll_cons_eq_ok hrest
    cases hobserve
    cases hnil
    have hbefore : World.Settled { w with telemetry := w.telemetry.record o } h :=
      hw.congr (fun _ => rfl) fun _ _ _ => rfl
    exact hbefore.alight horderly ((Services.binding?_eq hs o.request).trans hb) hr halight
  | aborted o b hb hkind hbound hcalls =>
    have hr := Services.replaced_commit (t := t) hs o.request none (by rw [hbound]; simp)
      fun id' hid => by rw [hbound, Table.find?_erase, if_neg (Ne.symm hid)]
    rw [hcalls] at hp
    obtain ⟨w₁, hobserve, hrest⟩ := performAll_cons_eq_ok hp
    obtain ⟨w₂, habort, hnil⟩ := performAll_cons_eq_ok hrest
    cases hobserve
    cases habort
    cases hnil
    have hbefore : World.Settled { w with telemetry := w.telemetry.record o } h :=
      hw.congr (fun _ => rfl) fun _ _ _ => rfl
    exact hbefore.abort horderly ((Services.binding?_eq hs o.request).trans hb) hr

/-- Turns of the services while nobody departs settle all travelers. -/
theorem Settled.turns (hoccasion : ∀ id, occasion ≠ .departure id) {calls : List Call}
    (ht : Services.Turns now occasion h h' calls) (hw : w.Settled h)
    (hp : w.performAll calls = .ok w') : w'.Settled h' := by
  induction ht generalizing w with
  | nil =>
    cases hp
    exact hw
  | cons hs ha _ ih =>
    obtain ⟨w₁, hfirst, hrest⟩ := performAll_append_eq_ok hp
    exact ih (hw.act hs hoccasion ha hfirst) hrest

/-! ## Events -/

/-- The departures of a traveler before an event is taken, and after. -/
theorem departures_of_next {e : Event} {clock : Clock} (hnext : w.clock.next? = some (e, clock))
    (id : EntityId) : w.departures id = World.departures { w with clock, current := some e } id +
      if e.kind = .departure ∧ e.subject = some (.traveler id) then 1 else 0 := by
  obtain ⟨hpending, -⟩ := Clock.next?_eq_some hnext
  unfold departures
  rw [hpending, List.countP_cons]
  simp

/-- While no departure is taken, all travelers stay settled. -/
theorem Settled.next {e : Event} {clock : Clock} (hw : w.Settled h)
    (hnext : w.clock.next? = some (e, clock)) (hkind : e.kind ≠ .departure) :
    World.Settled { w with clock, current := some e } h := by
  refine hw.congr (fun _ => rfl) fun id _ _ => ?_
  rw [departures_of_next hnext id]
  simp [hkind]

/-- A traveler whose departure is taken is bound nowhere and has no other departure pending, and
has a leg to travel. All others stay settled. -/
theorem Settled.next_departure {e : Event} {clock : Clock} (hw : w.Settled h)
    (hnext : w.clock.next? = some (e, clock)) (hkind : e.kind = .departure) {id : EntityId}
    (hsubject : e.subject = some (.traveler id)) {t : Traveler} (ht : w.traveler? id = some t) :
    h.Unbound id ∧ World.departures { w with clock, current := some e } id = 0 ∧
      t.plan.current? ≠ none ∧
      ∀ j, j ≠ id → World.SettledAt { w with clock, current := some e } h j := by
  have hcount (j : EntityId) := departures_of_next hnext j
  have hpos : w.departures id ≠ 0 := by
    rw [hcount id]
    simp [hkind, hsubject]
  obtain ⟨hsit, hcurrent⟩ := hw.travelers id t ht
  obtain ⟨hstate, hlegs, hunbound, hone⟩ := hsit.of_departure hpos
  refine ⟨hunbound, ?_, hcurrent hstate hlegs, fun j hj => ?_⟩
  · have hid := hcount id
    rw [hone, if_pos ⟨hkind, hsubject⟩] at hid
    omega
  · refine (hw.travelers j).congr rfl (fun _ _ => ?_) (fun hu => hu) fun _ ho => ho
    rw [hcount j, if_neg, Nat.add_zero]
    rintro ⟨-, hsubject'⟩
    rw [hsubject] at hsubject'
    cases hsubject'
    exact hj rfl

/-- A traveler who departs and is bound nowhere gives up the journey. -/
theorem settled_abortUntracked {id : EntityId} (horderly : ∀ s ∈ h.members, s.Orderly)
    (hunbound : h.Unbound id) (hcount : w.departures id = 0)
    (hothers : ∀ j, j ≠ id → w.SettledAt h j) : (w.abortUntracked id).Settled h := by
  refine ⟨horderly, fun j => ?_⟩
  by_cases hj : j = id
  · subst hj
    intro t ht
    have hchanged := (traveler?_changeTraveler w j j _).symm.trans ht
    rw [if_pos rfl, Option.map_eq_some_iff] at hchanged
    obtain ⟨t', -, rfl⟩ := hchanged
    exact ⟨⟨hunbound, rfl, hcount⟩, by simp⟩
  · refine (hothers j hj).congr ?_ (fun _ _ => rfl) (fun hu => hu) fun _ ho => ho
    exact (traveler?_changeTraveler w id j _).trans (if_neg (Ne.symm hj))

/-- Observations and notices to stops concern no traveler and no departure. -/
private theorem performAll_notices {calls : List Call}
    (hcalls : ∀ c ∈ calls,
      (∃ o, c = .observe o) ∨ ∃ stop traveler now, c = .ready stop traveler now)
    (hp : w.performAll calls = .ok w') (id : EntityId) :
    w'.traveler? id = w.traveler? id ∧ w'.departures id = w.departures id := by
  induction calls generalizing w with
  | nil =>
    cases hp
    exact ⟨rfl, rfl⟩
  | cons c calls ih =>
    obtain ⟨w₁, hfirst, hrest⟩ := performAll_cons_eq_ok hp
    obtain ⟨ht, hd⟩ := ih (fun c' hc' => hcalls c' (List.mem_cons_of_mem c hc')) hrest
    rw [ht, hd]
    rcases hcalls c List.mem_cons_self with ⟨o, rfl⟩ | ⟨stop, traveler, now, rfl⟩
    · cases hfirst
      exact ⟨rfl, rfl⟩
    · obtain ⟨clock, hclock, rfl⟩ := schedule_eq_ok hfirst
      refine ⟨rfl, departures_eq_of_grown (Clock.grown_scheduleAt hclock) ?_ id⟩
      rintro e ⟨-, hkind, -⟩
      simp [hkind]

/-- A traveler who departs waits if a service binds the traveler, and gives up otherwise. -/
theorem settled_departed {id : EntityId} {turn : Turn} {o : Observation}
    (horderly : ∀ s ∈ h.members, s.Orderly) (hunbound : h.Unbound id)
    (hcount : w.departures id = 0) (hothers : ∀ j, j ≠ id → w.SettledAt h j)
    (hs : h.members[i]? = some s) (hopen : s.closed = false)
    (ha : s.Act now (.departure id) turn)
    (hhead : turn.calls.head? = some (.observe o)) (hwaiting : o.kind = .waiting)
    (hp : { w.changeTraveler id ({ · with state := .waiting }) with
      services := h.commit i turn }.performAll turn.calls = .ok w') :
    (if (h.commit i turn).isBound id then w' else w'.abortUntracked id).Settled
      (h.commit i turn) := by
  have horderly' := Services.Turns.forall_members
    (fun u v hu hv => hu.act hv) (fun u l hu => hu.hear l) (Services.turns_of_act hs ha) horderly
  have hchanged (j : EntityId) := w.traveler?_changeTraveler id j ({ · with state := .waiting })
  have heffect := (horderly s (List.mem_of_getElem? hs)).effect ha
  rcases heffect.of_departure hhead hwaiting with
    ⟨hbound, hcalls⟩ | ⟨b, ready, rfl, hup, hstatus, hbound, hcalls, hready⟩
  · have hsame := Services.binding?_commit_of_eq hs hbound
    have hunbound' : (h.commit i turn).Unbound id := fun j r b hb =>
      hunbound j r b ((hsame j r).symm.trans hb)
    have hnotices := performAll_notices (by simp [hcalls]) hp
    rw [if_neg fun hisBound => Services.not_unbound_of_isBound hisBound hunbound']
    refine settled_abortUntracked horderly' hunbound' ((hnotices id).2.trans hcount) fun j hj => ?_
    refine (hothers j hj).congr ?_ (fun _ _ => (hnotices j).2) ?_ ?_
    · exact (hnotices j).1.trans ((hchanged j).trans (if_neg (Ne.symm hj)))
    · exact fun hu k r b hb => hu k r b ((hsame k r).symm.trans hb)
    · rintro p ⟨k, r, b, hb, htraveler, hstatus, honly⟩
      exact ⟨k, r, b, (hsame k r).trans hb, htraveler, hstatus, fun k' r' b' hb' =>
        honly k' r' b' ((hsame k' r').symm.trans hb')⟩
  · have hr := Services.replaced_commit (t := turn) hs o.request (some b)
      (by rw [hbound]; simp) fun id' hid => by
        rw [hbound, Table.find?_insert, if_neg (Ne.symm hid)]
    have hfree : h.binding? i o.request = none :=
      (Services.binding?_eq hs o.request).trans
        ((horderly s (List.mem_of_getElem? hs)).unbound o.request hup)
    have hnotices := performAll_notices (fun c hc => by
      rw [hcalls, List.mem_cons] at hc
      rcases hc with rfl | hc
      · exact .inl ⟨o, rfl⟩
      · obtain ⟨stop, now, rfl⟩ := hready c hc
        exact .inr ⟨stop, b.traveler, now, rfl⟩) hp
    have hisBound : (h.commit i turn).isBound b.traveler = true := by
      refine Services.isBound_of_binding (Services.getElem?_commit hs turn) ?_ hr.changed rfl
      rw [Service.closed_hear, ha.terms.2.2.1, hopen]
    rw [if_pos hisBound]
    refine .commit_replaced b.traveler hothers horderly' hr ?_ ?_ (fun j hj => ?_) (fun j hj => ?_)
      fun t ht => ?_
    · intro b' hb'
      rw [hfree] at hb'
      cases hb'
    · intro b' hb'
      rw [Option.some.inj hb']
    · exact (hnotices j).1.trans ((hchanged j).trans (if_neg (Ne.symm hj)))
    · exact (hnotices j).2
    · rw [(hnotices b.traveler).1] at ht
      have hwaits := (hchanged b.traveler).symm.trans ht
      rw [if_pos rfl, Option.map_eq_some_iff] at hwaits
      obtain ⟨t', -, rfl⟩ := hwaits
      refine ⟨⟨hr.boundOnce rfl hstatus (hunbound.onlyAt i o.request), ?_⟩, by simp⟩
      exact (hnotices b.traveler).2.trans hcount

/-- Travelers whose services take turns in which nobody departs stay settled. -/
theorem Settled.performed {now : Time} {services : Services} {calls : List Call}
    (hw : w.Settled w.services) (hturns : Services.Turns now .other w.services services calls)
    (hp : { w with services }.performAll calls = .ok w') : w'.Settled w'.services := by
  have hsettled : w'.Settled services :=
    Settled.turns (w := { w with services }) (by simp) hturns
      (hw.congr (fun _ => rfl) fun _ _ _ => rfl) hp
  have hservices : w'.services = services := (kept_performAll hp).services
  rw [hservices]
  exact hsettled

/-- All travelers stay settled after an event with which nothing is left to be done. -/
theorem Settled.ignored {e : Event} {clock : Clock} (hw : w.Settled w.services)
    (hnext : w.clock.next? = some (e, clock))
    (htraveler : ∀ id t, e.subject = some (.traveler id) → w.traveler? id = some t →
      e.kind = .departure → t.plan.current? = none) :
    World.Settled { w with clock, current := some e } w.services := by
  by_cases hdeparture : e.kind = .departure
  · refine hw.congr (fun _ => rfl) fun id t ht => ?_
    rw [departures_of_next hnext id, if_neg, Nat.add_zero]
    rintro ⟨-, hsubject⟩
    exact (hw.next_departure hnext hdeparture hsubject ht).2.2.1
      (htraveler id t hsubject ht hdeparture)
  · exact hw.next hnext hdeparture

/-- A traveler who departs and whom a service takes is settled, be it that the traveler is bound or
gives up. -/
theorem Settled.departed {e : Event} {clock : Clock} {id : EntityId} {t : Traveler} {i : Nat}
    {s : Service} {turn : Turn} {o : Observation} (hw : w.Settled w.services)
    (hnext : w.clock.next? = some (e, clock)) (hkind : e.kind = .departure)
    (hsubject : e.subject = some (.traveler id)) (ht : w.traveler? id = some t)
    (hs : w.services.members[i]? = some s) (hopen : s.closed = false)
    (ha : s.Act e.time (.departure id) turn) (hhead : turn.calls.head? = some (.observe o))
    (hwaiting : o.kind = .waiting)
    (hp : { World.changeTraveler { w with clock, current := some e } id
      ({ · with state := .waiting }) with
        services := w.services.commit i turn }.performAll turn.calls = .ok w') :
    let v := if (w.services.commit i turn).isBound id then w' else w'.abortUntracked id
    v.Settled v.services := by
  obtain ⟨hunbound, hcount, -, hothers⟩ := hw.next_departure hnext hkind hsubject ht
  have hsettled := settled_departed hw.orderly hunbound hcount hothers hs hopen ha hhead
    hwaiting hp
  have hservices : w'.services = w.services.commit i turn := (kept_performAll hp).services
  intro v
  have hv : v.services = w.services.commit i turn := by
    show (if _ then w' else _).services = _
    split
    · exact hservices
    · exact hservices
  rw [hv]
  exact hsettled

/-- Every event that is handled without fault settles all travelers. -/
theorem Settled.handled {e : Event} {clock : Clock} (hw : w.Settled w.services)
    (hnext : w.clock.next? = some (e, clock))
    (hh : Handled { w with clock, current := some e } e w') : w'.Settled w'.services := by
  cases hh with
  | aside hkind hservices hentities hclock hstart =>
    have hne : e.kind ≠ .departure := by rcases hkind with hkind | hkind <;> simp [hkind]
    rw [hservices]
    refine (hw.next hnext hne).congr (fun id => ?_) fun id _ _ => ?_
    · unfold traveler?
      rw [hentities]
    · refine departures_eq_of_grown hclock (fun d hd => ?_) id
      rcases hd with hd | hd <;> simp [hd]
  | ignored hkind htraveler hstop => exact hw.ignored hnext htraveler
  | @stepped services calls w₁ _ hkind hturns hp hafter =>
    have hstep := (hw.next hnext (by simp [hkind])).performed hturns hp
    rcases hafter with ⟨-, rfl⟩ | ⟨time, hschedule⟩
    · exact hstep
    · obtain ⟨clock', hclock, rfl⟩ := schedule_eq_ok hschedule
      refine hstep.congr (fun _ => rfl) fun id _ _ => ?_
      exact departures_eq_of_grown (Clock.grown_scheduleAt hclock)
        (fun d hd => by simp [hd.2.1]) id
  | @unserved id t hkind hsubject ht =>
    obtain ⟨hunbound, hcount, -, hothers⟩ := hw.next_departure hnext hkind hsubject ht
    refine settled_abortUntracked hw.orderly hunbound hcount fun j hj => ?_
    refine (hothers j hj).congr ?_ (fun _ _ => rfl) (fun hu => hu) fun _ ho => ho
    exact (traveler?_changeTraveler _ id j _).trans (if_neg (Ne.symm hj))
  | departed hkind hsubject ht hs hopen ha hhead hwaiting hp =>
    exact hw.departed hnext hkind hsubject ht hs hopen ha hhead hwaiting hp
  | @waits id st i s hkind hsubject hst hpickup hstate hs hmode hunbound =>
    have hbefore := hw.next hnext (by simp [hkind])
    have hact : s.Act e.time (.arrival id) _ := .await id st.request rfl hunbound
    have hsettled := hbefore.commit_quiet hs hact rfl
    exact hsettled.congr (fun j => traveler?_setStopState _ id j _) fun _ _ _ => rfl
  | @served id st i s turn w₁ hkind hsubject hst hs ha hp =>
    have hserved := (hw.next hnext (by simp [hkind])).performed (Services.turns_of_act hs ha) hp
    exact hserved.congr (fun j => traveler?_setStopState _ id j _) fun _ _ _ => rfl
  | @stays id _ _ _ hkind | @cancelled id _ _ hkind =>
    have hbefore := hw.next hnext (by simp [hkind])
    exact hbefore.congr (fun j => traveler?_setStopState _ id j _) fun _ _ _ => rfl

/-- The publication of a rejection leaves all travelers settled. -/
theorem Settled.publish (hw : w.Settled w.services) (r : Rejection) :
    (w.publish r).Settled (w.publish r).services := by
  have horderly := Services.forall_members_publish (fun u l hu => hu.hear l) r hw.orderly
  refine ⟨horderly, fun id => (hw.travelers id).congr rfl (fun _ _ => rfl) ?_ fun p => ?_⟩
  · intro hu i q b hb
    exact hu i q b (hb ▸ (Services.binding?_publish w.services r i q).symm)
  · rintro ⟨i, q, b, hb, htraveler, hp, honly⟩
    refine ⟨i, q, b, (Services.binding?_publish w.services r i q).trans hb, htraveler, hp, ?_⟩
    intro j q' b' hb'
    exact honly j q' b' ((Services.binding?_publish w.services r j q').symm.trans hb')

/-! ## Scenarios -/

/-- What holds while a scenario is filled: nobody is bound, and every traveler is about to depart
on the first leg, if there is one. -/
structure Fresh (w : World) : Prop where
  orderly : ∀ s ∈ w.services.members, s.Orderly
  unbound : ∀ s ∈ w.services.members, ∀ id, s.bound.find? id = none
  travelers : ∀ id t, w.traveler? id = some t → t.state = .activity ∧ t.plan.position = 0
  departures : ∀ id, w.departures id = if (w.traveler? id).any (·.plan.legs ≠ []) then 1 else 0

/-- Nobody is bound by an act that is not a departure. -/
theorem unbound_of_act {t : Turn} (ha : s.Act now .other t) (hs : ∀ id, s.bound.find? id = none)
    (id : RequestId) : t.service.bound.find? id = none := by
  cases ha with
  | book | declineBooking | park | discard => exact hs id
  | hear copies r hr => cases hr
  | await stop r hstop => cases hstop
  | departRejected traveler desk key r rejection hwho => cases hwho
  | departBooked traveler desk key r hwho => cases hwho
  | departNow traveler r hwho => cases hwho
  | departDeclined traveler r hwho => cases hwho
  | pickUp vehicle r b hb | dropOff vehicle r b hb =>
    rw [hs r] at hb
    cases hb
  | reject r rest b hm ht hb =>
    rw [hs r.request] at hb
    cases hb

theorem Fresh.filled {p : Provision} (hw : w.Fresh) (hf : Filled w p w') : w'.Fresh := by
  have hlast : w.traveler? w.entities.length = none := by simp [traveler?]
  refine ⟨?_, ?_, fun id t ht => ?_, fun id => ?_⟩
  · exact hf.forall_members (fun _ _ _ hs ha => hs.act ha) (fun s l hs => hs.hear l) hw.orderly
  · refine hf.forall_members (fun _ _ _ hs ha => unbound_of_act ha hs) ?_ hw.unbound
    intro s l hs id
    rw [Service.bound_hear]
    exact hs id
  · rw [hf.traveler?] at ht
    split at ht
    · cases p with
      | traveler person link legs =>
        obtain rfl := Option.some.inj ht
        exact ⟨rfl, rfl⟩
      | stop | booking | rejection => cases ht
    · exact hw.travelers id t ht
  · rw [hf.departures, hf.traveler?, hw.departures]
    by_cases hid : w.entities.length = id
    · subst hid
      rw [hlast, if_pos rfl]
      cases p <;> simp [Provision.departs, Provision.entity?]
    · simp [hid]

/-- In a world that is filled all travelers are settled. -/
theorem Fresh.settled (hw : w.Fresh) : w.Settled w.services := by
  refine ⟨hw.orderly, fun id t ht => ?_⟩
  obtain ⟨hstate, hposition⟩ := hw.travelers id t ht
  refine ⟨?_, fun _ hlegs => ?_⟩
  · unfold Situated
    rw [hstate]
    refine ⟨fun i r b hb => ?_, ?_⟩
    · obtain ⟨s, hs, hbound⟩ := Option.bind_eq_some_iff.1 hb
      rw [hw.unbound s (List.mem_of_getElem? hs) r] at hbound
      cases hbound
    · rw [hw.departures, ht]
      by_cases hlegs : t.plan.legs = [] <;> simp [hlegs]
  · obtain ⟨leg, rest, hcons⟩ := List.exists_cons_of_ne_nil hlegs
    simp [Plan.current?, hposition, hcons]

end World

/-- In the world that is set up nobody is bound, and there are no travelers. -/
theorem Setup.fresh_build {s : Setup} {w : World} (hb : s.build = .ok w) : w.Fresh := by
  obtain ⟨-, hmembers, hentities, hclock⟩ := build_eq_ok hb
  have hvacant : ∀ u ∈ w.services.members, u.Orderly ∧ ∀ id, u.bound.find? id = none := by
    intro u hu
    rw [hmembers] at hu
    obtain ⟨rule, -, rfl⟩ := List.mem_map.1 hu
    exact s.vacant_service rule
  have hnobody : ∀ id, w.traveler? id = none := by
    intro id
    simp [World.traveler?, hentities]
  constructor
  · exact fun u hu => (hvacant u hu).1
  · exact fun u hu => (hvacant u hu).2
  · intro id t ht
    rw [hnobody] at ht
    cases ht
  · intro id
    rw [hnobody]
    simp [World.departures, hclock]

/-- When a scenario starts all travelers are settled. -/
theorem Setup.settled_start {s : Setup} {provisions : List Provision} {built ready started : World}
    (hbuilt : s.build = .ok built) (hready : built.provideAll provisions = .ok ready)
    (hstarted : ready.start = .ok started) : started.Settled started.services := by
  have hfresh : ready.Fresh := World.provideAll_keeps (fun _ _ _ _ hv hf => hv.filled hf) hready
    (Setup.fresh_build hbuilt)
  obtain ⟨clock, hclock, rfl⟩ := World.schedule_eq_ok hstarted
  refine hfresh.settled.congr (fun _ => rfl) fun id _ _ => ?_
  exact World.departures_eq_of_grown (Clock.grown_scheduleAt hclock)
    (fun d hd => by simp [hd.2.1]) id

/-- Every traveler of every world that a scenario reaches before a fault is met is in the
situation that belongs to what the traveler is doing, whatever rejections are published. -/
theorem Setup.Reaches.situated {s : Setup} {provisions : List Provision} {w : World}
    (h : s.Reaches (fun _ => True) provisions w) (hfault : w.fault = none) {id : EntityId}
    {t : Traveler} (ht : w.traveler? id = some t) :
    Situated w.services (w.departures id) id t := by
  obtain ⟨-, built, ready, started, hbuilt, hready, hstarted, honward⟩ := h
  have hsettled := settled_start hbuilt hready hstarted
  have hw : w.Settled w.services := honward.keeps (P := fun v => v.Settled v.services)
    (fun v v' e clock hv hnext hh => hv.handled hnext hh) (fun v r _ hv => hv.publish r) hsettled
    hfault
  exact (hw.travelers id t ht).1

/-- On the way to work the traveler rides in the vehicle that came to the pickup. -/
theorem situated_commuter : ∃ w t, commute.play (commuters 100 150) 6 = some w ∧
    w.traveler? 0 = some t ∧ t.state = .inVehicle ∧
    Situated w.services (w.departures 0) 0 t := by
  have hplay : ((commute.play (commuters 100 150) 6).bind fun w => (w.traveler? 0).bind fun t =>
      if w.fault = none ∧ t.state = .inVehicle then some () else none) = some () := by
    decide +kernel
  obtain ⟨w, hw, hrest⟩ := Option.bind_eq_some_iff.1 hplay
  obtain ⟨t, ht, hif⟩ := Option.bind_eq_some_iff.1 hrest
  split at hif
  · next hwt =>
    exact ⟨w, t, hw, ht, hwt.2,
      Setup.Reaches.situated (Setup.reaches_of_play (fun _ _ => trivial) hw) hwt.1 ht⟩
  · cases hif

end DialARide
