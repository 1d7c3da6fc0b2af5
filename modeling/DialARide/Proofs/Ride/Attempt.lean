import DialARide.Proofs.Ride.Course

/-!
# Departures, dropoffs and bookings leave no trace of a fault

On its way a departure takes a booking from the desk, draws a name, binds the traveler, calls on the
simulation and hands the request to the optimizer, which may reject it at once. The calls that can
meet a fault are written here as procedures that do all this in place, one change after the other,
and leave what they have done when they meet a fault. While a service acts in place, its turn builds
up; so the procedures do what the services do in one turn, and whatever can fail is looked at before
anything has changed.
-/

namespace DialARide

attribute [ext] Services

/-- The services, and all that they have called for and handed to an optimizer so far. -/
structure Scene where
  services : Services
  calls : List Call := []
  handedIn : List Request := []

namespace Service

/-- A change of a service has nothing to do with its mailbox and its optimizer. -/
structure LeavesMail (f : Service → Service) : Prop where
  deliver : ∀ s copies r, f (Service.deliver s copies r) = (f s).deliver copies r
  subscriptions : ∀ s, (f s).subscriptions = s.subscriptions
  ownOptimizer : ∀ s, (f s).ownOptimizer = s.ownOptimizer

/-- Whether such a change comes before or after the mail makes no difference. -/
theorem LeavesMail.hear {f : Service → Service} (hf : LeavesMail f) (s : Service)
    (l : List Rejection) : f (s.hear l) = (f s).hear l := by
  induction l generalizing s with
  | nil => rfl
  | cons r l ih =>
    have hnext := ih (s.deliver s.subscriptions r)
    rw [hf.deliver] at hnext
    rw [Service.hear, List.foldl_cons, ← Service.hear, hnext, Service.hear, Service.hear,
      List.foldl_cons, hf.subscriptions]

theorem leavesMail_bound (g : Table RequestId Binding → Table RequestId Binding) :
    LeavesMail fun s => { s with bound := g s.bound } :=
  ⟨fun s copies r => by unfold Service.deliver; split <;> rfl, fun _ => rfl, fun _ => rfl⟩

theorem leavesMail_waitingStops (g : Table RequestId EntityId → Table RequestId EntityId) :
    LeavesMail fun s => { s with waitingStops := g s.waitingStops } :=
  ⟨fun s copies r => by unfold Service.deliver; split <;> rfl, fun _ => rfl, fun _ => rfl⟩

end Service

namespace Services

/-- What comes of an act at a position, also if no service stands there. -/
def actAt {α : Type} (h : Services) (i : Nat) (f : Service → Except Fault (α × Turn)) :
    Except Fault (Option α × Services × List Call) :=
  (h.act i f).map fun
    | some (a, h', calls) => (some a, h', calls)
    | none => (none, h, [])

end Services

namespace Scene

/-! ## Procedures -/

/-- A procedure changes a scene in place. What it has changed stays changed if it meets a fault. -/
abbrev Procedure (α : Type) := ExceptT Fault (StateM Scene) α

variable {α β : Type}

/-- The result of a procedure, or the fault that it meets, and what has become of the scene. -/
def after (c : Scene) (p : Procedure α) : Except Fault α × Scene := p.run c

/-- Looks something up that may be missing. -/
def check (x : Except Fault α) : Procedure α := ExceptT.mk fun c => (x, c)

/-- Looks at the scene. -/
def look (f : Scene → α) : Procedure α := ExceptT.mk fun c => (.ok (f c), c)

/-- Changes the scene. -/
def change (f : Scene → Scene) : Procedure Unit := ExceptT.mk fun c => (.ok (), f c)

/-- Looks for something in the service at a position. -/
def find (i : Nat) (f : Service → Option α) : Procedure (Option α) :=
  look fun c => c.services.members[i]?.bind f

/-- Changes the service at a position. -/
def amend (i : Nat) (f : Service → Service) : Procedure Unit :=
  change fun c => { c with services := c.services.change i f }

/-- Calls on the simulation. -/
def tell (call : Call) : Procedure Unit := change fun c => { c with calls := c.calls ++ [call] }

/-- Hands a request to the optimizer of the service at a position, which answers it at once. -/
def handIn (i : Nat) (r : Request) : Procedure Unit := change fun c =>
  { c with
    services := if c.services.members[i]?.any (·.ownOptimizer) then c.services
      else c.services.submitShared r
    handedIn := c.handedIn ++ [r] }

@[simp] theorem after_pure (c : Scene) (a : α) : c.after (pure a) = (.ok a, c) := rfl

@[simp] theorem after_throw (c : Scene) (fault : Fault) :
    c.after (throw fault : Procedure α) = (.error fault, c) := rfl

@[simp] theorem after_check (c : Scene) (x : Except Fault α) : c.after (check x) = (x, c) := rfl

@[simp] theorem after_look (c : Scene) (f : Scene → α) : c.after (look f) = (.ok (f c), c) := rfl

@[simp] theorem after_change (c : Scene) (f : Scene → Scene) :
    c.after (change f) = (.ok (), f c) := rfl

/-- A procedure goes on with what the one before it has left, unless that met a fault. -/
theorem after_bind (c : Scene) (p : Procedure α) (q : α → Procedure β) :
    c.after (p >>= q) = match c.after p with
      | (.ok a, c') => c'.after (q a)
      | (.error fault, c') => (.error fault, c') := by
  show (ExceptT.bindCont q (p.run c).1).run (p.run c).2 = _
  unfold after
  cases p.run c with
  | mk result c' => cases result <;> rfl

/-! ## Departures, dropoffs and bookings in place -/

/-- The stop that waits for the passenger of a request is forgotten and told of the passenger. -/
def releaseInPlace (i : Nat) (id : RequestId) (traveler : EntityId) (now : Time) :
    Procedure Unit := do
  let stop ← find i (·.waitingStops.find? id)
  amend i fun s => { s with waitingStops := s.waitingStops.erase id }
  match stop with
  | some stop => tell (.ready stop traveler now)
  | none => return

/-- A request that passes the screening is handed in before its status changes. Else the traveler is
unbound. -/
def submitInPlace (i : Nat) (screening : Screening) (traveler : EntityId) (r : Request) :
    Procedure Bool := do
  if screening.accepts r then
    handIn i r
    amend i fun s => { s with bound := s.bound.adjust r.id ({ · with status := .submitted }) }
    return true
  else
    let b ← find i (·.bound.find? r.id)
    if b.any (·.traveler = traveler) then
      amend i fun s => { s with bound := s.bound.erase r.id }
    return false

/-- A name is drawn for the request, the wait is observed, the traveler bound and the request
submitted; then a stop that waits is told. -/
def departNowInPlace (i : Nat) (s : Service) (now : Time) (who : Departing) (leg : Leg)
    (source target : Link) : Procedure Unit := do
  amend i fun s => { s with drawn := s.drawn + 1 }
  let r := s.request s.nextName who.person leg source target now now
  tell (s.waitingCall now r)
  amend i (·.bind r who.traveler .created)
  if ← submitInPlace i s.screening who.traveler r then
    releaseInPlace i r.id who.traveler now

/-- The wait is observed and the traveler bound; then the rejection that is parked, if there is one,
is put first in the mailbox, and else a stop that waits is told. -/
def departBookedInPlace (i : Nat) (s : Service) (now : Time) (who : Departing) (r : Request) :
    Procedure Unit := do
  tell (s.waitingCall now r)
  amend i (·.bind r who.traveler .waitingActive)
  let parked ← find i (·.parked.find? r.id)
  amend i fun s => { s with parked := s.parked.erase r.id }
  match parked with
  | some rejection => amend i fun s => { s with mailbox := rejection :: s.mailbox }
  | none => releaseInPlace i r.id who.traveler now

/-- The booking of a leg is taken from the desk, if there is one. -/
def collectInPlace (i : Nat) (key : LegKey) : Procedure (Option Request) := do
  let booking ← find i (·.booking? key)
  amend i (·.unbook key)
  return booking

/-- A departure is offered to the service at a position. The links are looked up once it is known
that the leg is not booked. -/
def departAtInPlace (i : Nat) (now : Time) (who : Departing) (link : LinkId) :
    Procedure Bool := do
  let some s ← find i some | return false
  if who.mode ≠ s.mode then return false
  let some planned := who.leg | throw (.noCurrentLeg who.person who.mode)
  match ← collectInPlace i ⟨who.person, planned.index⟩ with
  | some r => departBookedInPlace i s now who r
  | none =>
    let source ← check (s.requireLink link)
    let target ← check (s.requireLink planned.leg.target)
    departNowInPlace i s now who planned.leg source target
  return true

/-- A departure is offered to the services at some positions until one takes the traveler. -/
def offerInPlace (now : Time) (who : Departing) (link : LinkId) : List Nat → Procedure Bool
  | [] => return false
  | i :: rest => do
    if ← departAtInPlace i now who link then return true
    offerInPlace now who link rest

/-- A departure is offered to the open services, in order. -/
def departInPlace (now : Time) (who : Departing) (link : LinkId) : Procedure Bool := do
  let places ← look fun c => (c.services.members.zipIdx.filter (!·.1.closed)).map (·.2)
  offerInPlace now who link places

/-- The binding is removed before it is known whether there was one. -/
def dropOffInPlace (i : Nat) (vehicle : VehicleId) (id : RequestId) (now : Time) :
    Procedure (Option EntityId) := do
  let some s ← find i some | return none
  let bound ← find i (·.bound.find? id)
  amend i fun s => { s with bound := s.bound.erase id }
  let some b := bound | throw (.unboundRequest id s.mode)
  tell (.observe { s.observation now .droppedOff id b.person with vehicle := some vehicle })
  tell (.alight vehicle b.traveler b.target now)
  return some b.traveler

/-- A name is drawn for the booking, and the request screened; then the booking is kept before the
request is handed in. -/
def bookBetweenInPlace (i : Nat) (s : Service) (desk : Desk) (now : Time) (person : PersonId)
    (planned : PlannedLeg) (source target : Link) : Procedure (Option RequestId) := do
  amend i fun s => { s with desk := s.desk.map fun desk => { desk with drawn := desk.drawn + 1 } }
  let id := s.nextBookingName desk
  let r := s.request id person planned.leg source target planned.leg.departure now
  if desk.screening.accepts r then
    amend i fun s => { s with desk := s.desk.map fun desk =>
      { desk with bookings := desk.bookings.insert ⟨person, planned.index⟩ r } }
    handIn i r
    return some id
  else return none

/-- A leg of the mode is booked if both links are known. -/
def bookInPlace (i : Nat) (now : Time) (person : PersonId) (planned : PlannedLeg) :
    Procedure (Option (Option RequestId)) := do
  let some s ← find i some | return none
  let some desk := s.desk | return some none
  if planned.leg.mode ≠ s.mode then return some none
  let source ← check (s.requireLink planned.leg.source)
  let target ← check (s.requireLink planned.leg.target)
  let id ← bookBetweenInPlace i s desk now person planned source target
  return some id

/-! ## The turn that builds up -/

/-- The scene once a turn of the service at a position has been put into effect. -/
def commit (c : Scene) (i : Nat) (t : Turn) : Scene where
  services := c.services.commit i t
  calls := c.calls ++ t.calls
  handedIn := c.handedIn ++ t.submitted

variable {c : Scene} {i : Nat} {s u : Service} {t : Turn} {calls : List Call} {now : Time}

/-- The turn has nothing in it before a service acts. -/
theorem commit_self (hs : c.services.members[i]? = some s) : c.commit i { service := s } = c := by
  simp only [commit, Services.commit_self hs, List.append_nil]

/-- What a service holds before it acts. -/
theorem after_find_first (hs : c.services.members[i]? = some s) (f : Service → Option α) :
    c.after (find i f) = (.ok (f s), c) := by
  rw [find, after_look, hs, Option.bind_some]

/-- A call is added to the turn. -/
theorem after_tell (c : Scene) (i : Nat) (t : Turn) (call : Call) :
    (c.commit i t).after (tell call) =
      (.ok (), c.commit i { t with calls := t.calls ++ [call] }) := by
  simp only [tell, after_change, commit, List.append_assoc]
  rfl

/-- What the service has heard matters only to who looks into the mailbox. -/
theorem after_find (hs : c.services.members[i]? = some s) (t : Turn) {f : Service → Option α}
    (hf : ∀ l, f (t.service.hear l) = f t.service) :
    (c.commit i t).after (find i f) = (.ok (f t.service), c.commit i t) := by
  have hmember : (c.commit i t).services.members[i]? = _ := Services.getElem?_commit hs t
  simp only [find, after_look, hmember, Option.bind_some, hf]

/-- As long as nothing is handed in there is nothing to be heard. -/
private theorem after_find_quiet (hs : c.services.members[i]? = some s) (u : Service)
    (calls : List Call)
    (f : Service → Option α) :
    (c.commit i ⟨u, calls, []⟩).after (find i f) = (.ok (f u), c.commit i ⟨u, calls, []⟩) := by
  have hi : i < c.services.members.length := (List.getElem?_eq_some_iff.1 hs).1
  have hmember : (c.commit i ⟨u, calls, []⟩).services.members[i]? = some u := by
    simp only [commit, Services.commit_quiet, List.getElem?_set_self hi]
  simp only [find, after_look, hmember, Option.bind_some]

/-- A change of the service that has nothing to do with its mailbox and its optimizer could as well
have been made before the answers were heard. -/
theorem after_amend (c : Scene) (i : Nat) (t : Turn) {f : Service → Service}
    (hf : Service.LeavesMail f) : (c.commit i t).after (amend i f) =
      (.ok (), c.commit i { t with service := f t.service }) := by
  have hanswers : c.services.answersTo { t with service := f t.service } =
      c.services.answersTo t := by
    simp only [Services.answersTo, hf.ownOptimizer]
  have hservices : (c.services.commit i t).change i f =
      c.services.commit i { t with service := f t.service } := by
    ext1
    · rw [Services.members_commit, hanswers]
      show List.modify (c.services.commit i t).members i f = _
      rw [Services.members_commit]
      apply List.ext_getElem?
      intro j
      by_cases hj : i = j
      · subst hj
        simp only [List.getElem?_modify_eq, List.getElem?_map, List.getElem?_set]
        by_cases hi : i < c.services.members.length <;> simp [hi, hf.hear]
      · simp [List.getElem?_modify_ne, List.getElem?_set_ne, hj]
    · rw [Services.verdict_commit]
      exact Services.verdict_commit _ i t
    · rw [Services.submitted_commit, hf.ownOptimizer]
      exact Services.submitted_commit _ i t
  simp only [amend, after_change, commit, hservices]

/-- As long as nothing is handed in any change of the service will do. -/
private theorem after_amend_quiet (c : Scene) (i : Nat) (u : Service) (calls : List Call)
    (f : Service → Service) : (c.commit i ⟨u, calls, []⟩).after (amend i f) =
      (.ok (), c.commit i ⟨f u, calls, []⟩) := by
  have hset : List.modify (c.services.members.set i u) i f = c.services.members.set i (f u) := by
    apply List.ext_getElem?
    intro j
    by_cases hj : i = j
    · subst hj
      simp [List.getElem?_modify_eq, List.getElem?_set]
    · simp [List.getElem?_modify_ne, List.getElem?_set_ne, hj]
  simp only [amend, after_change, commit, Services.commit_quiet, Services.change, hset]

/-- The first change of a service begins its turn. -/
theorem after_amend_first (hs : c.services.members[i]? = some s) (f : Service → Service) :
    c.after (amend i f) = (.ok (), c.commit i { service := f s }) := by
  have hquiet := after_amend_quiet c i s [] f
  rwa [commit_self hs] at hquiet

/-- A request that is handed in is the first that is submitted in the turn. -/
theorem after_handIn (hs : c.services.members[i]? = some s) (u : Service) (calls : List Call)
    (r : Request) : (c.commit i ⟨u, calls, []⟩).after (handIn i r) =
      (.ok (), c.commit i ⟨u, calls, [r]⟩) := by
  have hi : i < c.services.members.length := (List.getElem?_eq_some_iff.1 hs).1
  have hservices : c.services.commit i ⟨u, calls, []⟩ =
      { c.services with members := c.services.members.set i u } := Services.commit_quiet _ i rfl
  have hmember : (c.services.members.set i u)[i]? = some u := List.getElem?_set_self hi
  simp only [handIn, after_change, commit, hservices, hmember, List.append_nil, Option.any_some]
  rfl

/-! ## The same in one turn -/

/-- A stop that waits is told at the end of a turn, and forgotten. -/
theorem after_release (hs : c.services.members[i]? = some s) (t : Turn) (id : RequestId)
    (traveler : EntityId) (now : Time) :
    (c.commit i t).after (releaseInPlace i id traveler now) =
      (.ok (), c.commit i { t with
        service := { t.service with waitingStops := t.service.waitingStops.erase id }
        calls := t.calls ++ t.service.readyCalls id traveler now }) := by
  have hfound := after_find hs t (f := (·.waitingStops.find? id)) fun l => by
    obtain ⟨more, heq, -⟩ := t.service.exists_hear l
    rw [heq]
  have hforgotten := after_amend c i t (Service.leavesMail_waitingStops (·.erase id))
  simp only [releaseInPlace, after_bind, hfound, hforgotten]
  cases hstop : t.service.waitingStops.find? id with
  | none => simp [Service.readyCalls, hstop]
  | some stop =>
    simp only [after_tell, Service.readyCalls, hstop, Option.map_some, Option.toList_some]

/-- The screening of a service decides whether a request is handed in. -/
theorem after_submit (hs : c.services.members[i]? = some s) (u : Service) (calls : List Call)
    (traveler : EntityId) (r : Request) :
    (c.commit i ⟨u, calls, []⟩).after (submitInPlace i u.screening traveler r) =
      (.ok (u.submit traveler r).1,
        c.commit i { (u.submit traveler r).2 with calls := calls }) := by
  unfold Service.submit submitInPlace
  split
  · have hmarked := after_amend c i ⟨u, calls, [r]⟩
      (Service.leavesMail_bound (·.adjust r.id ({ · with status := .submitted })))
    simp only [after_bind, after_handIn hs, hmarked, after_pure]
  · simp only [after_bind, after_find_quiet hs]
    split
    · simp only [after_bind, after_amend_quiet, after_pure]
    · simp only [after_pure]

/-- A request that is made at a departure takes one turn. -/
private theorem after_departNow (hs : c.services.members[i]? = some s) (now : Time)
    (who : Departing)
    (leg : Leg) (source target : Link) :
    c.after (departNowInPlace i s now who leg source target) =
      (.ok (), c.commit i (s.departNow now who leg source target)) := by
  let r := s.request s.nextName who.person leg source target now now
  let u := { s with drawn := s.drawn + 1 }.bind r who.traveler .created
  have hturn : s.departNow now who leg source target =
      let submission := u.submit who.traveler r
      let release := if submission.1
        then submission.2.service.releaseStop r.id who.traveler now
        else (submission.2.service, [])
      { service := release.1
        calls := s.waitingCall now r :: release.2
        submitted := submission.2.submitted } := rfl
  have hsubmit : (c.commit i ⟨u, [s.waitingCall now r], []⟩).after
      (submitInPlace i s.screening who.traveler r) = _ :=
    after_submit hs u [s.waitingCall now r] who.traveler r
  simp only [departNowInPlace, after_bind, after_amend_first hs, after_tell, List.nil_append,
    after_amend_quiet]
  rw [hsubmit, hturn]
  cases u.submit who.traveler r with
  | mk accepted turn =>
    cases accepted with
    | false => rfl
    | true =>
      simp only [↓reduceIte, Service.releaseStop_eq]
      exact after_release hs _ r.id who.traveler now

/-- A departure with a booking takes one turn. -/
private theorem after_departBooked (hs : c.services.members[i]? = some s) (u : Service) (now : Time)
    (who : Departing) (r : Request) :
    (c.commit i { service := u }).after (departBookedInPlace i u now who r) =
      (.ok (), c.commit i (u.departBooked now who r)) := by
  have hparked : (u.bind r who.traveler .waitingActive).parked = u.parked := rfl
  unfold Service.departBooked
  simp only [departBookedInPlace, after_bind, after_amend_quiet, after_tell, List.nil_append,
    after_find_quiet hs, hparked]
  cases hp : u.parked.find? r.id with
  | some rejection =>
    simp only [after_amend_quiet]
    rfl
  | none =>
    rw [after_release hs, Service.releaseStop_eq, Table.erase_of_find?_eq_none hp]
    rfl

/-- The booking of a leg is taken from the desk. -/
private theorem after_collect (hs : c.services.members[i]? = some s) (key : LegKey) :
    c.after (collectInPlace i key) =
      (.ok (s.booking? key), c.commit i { service := s.unbook key }) := by
  simp only [collectInPlace, after_bind, after_find_first hs, after_amend_first hs, after_pure]

/-- What a report leaves: its turn has been put into effect, or everything is as it was. -/
def outcome (c : Scene) (i : Nat) : Except Fault (α × Turn) → Except Fault α × Scene
  | .ok (a, t) => (.ok a, c.commit i t)
  | .error fault => (.error fault, c)

/-- What a service says to a departure, and its turn if it takes the traveler. -/
def taking (s : Service) : Option Turn → Bool × Turn
  | some t => (true, t)
  | none => (false, { service := s })

/-- A service that is offered a departure takes the traveler in one turn, or nothing changes. If its
links cannot be looked up, nothing was taken from the desk before. -/
private theorem after_departAt (hs : c.services.members[i]? = some s) (now : Time) (who : Departing)
    (link : LinkId) : c.after (departAtInPlace i now who link) =
      c.outcome i ((s.depart now who link).map (taking s)) := by
  have hself : c.commit i { service := s } = c := commit_self hs
  simp only [departAtInPlace, after_bind, after_find_first hs]
  by_cases hmode : who.mode = s.mode
  · rw [if_neg (not_not_intro hmode)]
    cases hleg : who.leg with
    | none =>
      rw [Service.depart_eq_error_iff.2 ⟨hmode, .leg hleg⟩]
      rfl
    | some planned =>
      simp only [after_bind, after_collect hs]
      rw [Service.depart_eq hmode hleg]
      cases hbooking : s.booking? ⟨who.person, planned.index⟩ with
      | some r =>
        have hbooked : (c.commit i { service := s.unbook ⟨who.person, planned.index⟩ }).after
            (departBookedInPlace i s now who r) = _ :=
          after_departBooked hs (s.unbook ⟨who.person, planned.index⟩) now who r
        simp only [after_bind, hbooked, after_pure, Except.map, taking, outcome]
      | none =>
        rw [Service.unbook_eq_self hbooking, hself]
        cases hsource : s.requireLink link with
        | error fault =>
          simp only [after_bind, after_check]
          rfl
        | ok source =>
          cases htarget : s.requireLink planned.leg.target with
          | error fault =>
            simp only [after_bind, after_check]
            rfl
          | ok target =>
            simp only [after_bind, after_check, after_departNow hs, after_pure]
            rfl
  · rw [if_pos hmode, Service.depart_eq_ok_none_iff.2 hmode]
    simp only [after_pure, Except.map, taking, outcome, hself]

/-- A departure is offered in vain until it comes to a service of the mode. -/
private theorem after_offer (now : Time) (who : Departing) (link : LinkId)
    {offers : List (Service × Nat)}
    (hoffers : ∀ p ∈ offers, c.services.members[p.2]? = some p.1) :
    c.after (offerInPlace now who link (offers.map (·.2))) =
      match offers.find? (·.1.mode = who.mode) with
      | some p => c.outcome p.2 ((p.1.depart now who link).map (taking p.1))
      | none => (.ok false, c) := by
  induction offers with
  | nil => rfl
  | cons p rest ih =>
    have hs := hoffers p List.mem_cons_self
    have hrest := ih fun q hq => hoffers q (List.mem_cons_of_mem p hq)
    simp only [List.map_cons, offerInPlace, after_bind, after_departAt hs, List.find?_cons]
    cases hd : p.1.depart now who link with
    | error fault =>
      have hmode : p.1.mode = who.mode := (Service.depart_eq_error_iff.1 hd).1.symm
      simp [hmode, hd, Except.map, outcome]
    | ok turn =>
      cases turn with
      | none =>
        have hmode : p.1.mode ≠ who.mode := (Service.depart_eq_ok_none_iff.1 hd).symm
        simp [hmode, hrest, Except.map, outcome, taking, commit_self hs]
      | some t =>
        have hmode : p.1.mode = who.mode := (Service.depart_eq_ok_some hd).1.symm
        simp [hmode, hd, Except.map, outcome, taking]

/-- A departure is taken in one turn by the first open service of its mode, or nothing changes. -/
theorem after_depart (c : Scene) (now : Time) (who : Departing) (link : LinkId) :
    c.after (departInPlace now who link) = match c.services.first? who.mode with
      | some p => c.outcome p.2 ((p.1.depart now who link).map (taking p.1))
      | none => (.ok false, c) := by
  have hoffers : ∀ p ∈ c.services.members.zipIdx.filter (!·.1.closed),
      c.services.members[p.2]? = some p.1 :=
    fun p hp => List.mem_zipIdx_iff_getElem?.1 (List.mem_filter.1 hp).1
  simp only [departInPlace, after_bind, after_look]
  rw [after_offer now who link hoffers, List.find?_filter]
  simp [Services.first?]

/-- The passenger of a request alights in one turn, or nothing changes. The binding is removed
before a fault is met, which happens only where there is none. -/
theorem after_dropOff (hs : c.services.members[i]? = some s) (vehicle : VehicleId) (id : RequestId)
    (now : Time) : c.after (dropOffInPlace i vehicle id now) =
      c.outcome i ((s.dropOff vehicle id now).map fun p => (some p.1, p.2)) := by
  simp only [dropOffInPlace, after_bind, after_find_first hs, after_amend_first hs]
  unfold Service.dropOff
  cases hb : s.bound.find? id with
  | none =>
    rw [Table.erase_of_find?_eq_none hb, commit_self hs]
    rfl
  | some b =>
    simp only [after_bind, after_tell, after_pure]
    rfl

/-- The booking of a leg between known links takes one turn. -/
private theorem after_bookBetween (hs : c.services.members[i]? = some s) {desk : Desk}
    (hdesk : s.desk = some desk) (now : Time) (person : PersonId) (planned : PlannedLeg)
    (source target : Link) :
    c.after (bookBetweenInPlace i s desk now person planned source target) =
      (.ok (s.bookBetween desk now person planned source target).1,
        c.commit i (s.bookBetween desk now person planned source target).2) := by
  unfold Service.bookBetween
  simp only [bookBetweenInPlace, after_bind, after_amend_first hs, hdesk, Option.map_some]
  split
  · simp only [after_bind, after_amend_quiet, Option.map_some, after_handIn hs, after_pure]
  · simp only [after_pure]

/-- A leg is booked in one turn, or nothing changes. -/
theorem after_book (hs : c.services.members[i]? = some s) (now : Time) (person : PersonId)
    (planned : PlannedLeg) : c.after (bookInPlace i now person planned) =
      c.outcome i ((s.book now person planned).map fun p => (some p.1, p.2)) := by
  have hself : c.commit i { service := s } = c := commit_self hs
  have hbooks := s.books_book now person planned
  simp only [bookInPlace, after_bind, after_find_first hs]
  generalize s.book now person planned = report at hbooks ⊢
  cases hbooks with
  | noDesk hdesk => simp only [hdesk, after_pure, Except.map, outcome, hself]
  | turnedDown hdesk hmode =>
    simp only [hdesk, if_pos hmode, after_pure, Except.map, outcome, hself]
  | noSource hdesk hmode hsource =>
    simp only [hdesk, if_neg (not_not_intro hmode), hsource, after_bind, after_check]
    rfl
  | noTarget hdesk hmode hsource htarget =>
    simp only [hdesk, if_neg (not_not_intro hmode), hsource, htarget, after_bind, after_check]
    rfl
  | between hdesk hmode hsource htarget =>
    simp only [hdesk, if_neg (not_not_intro hmode), hsource, htarget, after_bind, after_check,
      after_bookBetween hs hdesk, after_pure]
    rfl

/-! ## No trace of a fault -/

/-- A procedure does what is reported. If it meets a fault, that is the one reported, and services,
calls and what was handed in are as they were. -/
structure Does (c : Scene) (p : Procedure α)
    (report : Except Fault (α × Services × List Call)) : Prop where
  done : ∀ a h calls, report = .ok (a, h, calls) → ∃ handedIn, c.after p =
    (.ok a, { services := h, calls := c.calls ++ calls, handedIn := c.handedIn ++ handedIn })
  fails : ∀ fault, (c.after p).1 = .error fault ↔ report = .error fault
  untouched : ∀ fault, (c.after p).1 = .error fault → (c.after p).2 = c

/-- A procedure that comes to nothing. -/
theorem does_nothing {p : Procedure α} {a : α} (h : c.after p = (.ok a, c)) :
    c.Does p (.ok (a, c.services, [])) where
  done _ _ _ hreport := by
    cases hreport
    exact ⟨[], by rw [h, List.append_nil, List.append_nil]⟩
  fails fault := by simp [h]
  untouched fault hfault := by simp [h] at hfault

/-- A procedure that takes one turn. -/
theorem does_of_outcome {p : Procedure α} {x : Except Fault (α × Turn)}
    (h : c.after p = c.outcome i x) :
    c.Does p (x.map fun p => (p.1, c.services.commit i p.2, p.2.calls)) := by
  cases x with
  | error fault =>
    have hp : c.after p = (.error fault, c) := h
    refine ⟨fun _ _ _ hreport => ?_, fun _ => by simp [hp, Except.map], fun _ _ => by rw [hp]⟩
    cases hreport
  | ok outcome =>
    obtain ⟨a, t⟩ := outcome
    have hp : c.after p = (.ok a, c.commit i t) := h
    refine ⟨fun _ _ _ hreport => ?_, fun _ => by simp [hp, Except.map], fun _ hfault => ?_⟩
    · cases hreport
      exact ⟨t.submitted, hp⟩
    · simp [hp] at hfault

/-- A departure goes step by step as it is reported, for all services at once. -/
theorem does_depart (c : Scene) (now : Time) (who : Departing) (link : LinkId) :
    c.Does (departInPlace now who link) (c.services.depart now who link) := by
  have hafter := after_depart c now who link
  cases hfirst : c.services.first? who.mode with
  | none =>
    rw [hfirst] at hafter
    rw [Services.depart_of_first?_eq_none hfirst]
    exact does_nothing hafter
  | some p =>
    obtain ⟨s, i⟩ := p
    rw [hfirst] at hafter
    have hself := Services.commit_self (Services.getElem?_of_first? hfirst)
    have hreport : c.services.depart now who link =
        ((s.depart now who link).map (taking s)).map fun p =>
          (p.1, c.services.commit i p.2, p.2.calls) := by
      rw [Services.depart_of_first? hfirst]
      cases s.depart now who link with
      | error fault => rfl
      | ok turn => cases turn <;> simp [Except.map, taking, hself]
    rw [hreport]
    exact does_of_outcome hafter

theorem does_act {p : Procedure (Option α)} {f : Service → Except Fault (α × Turn)}
    (hnone : c.services.members[i]? = none → c.after p = (.ok none, c))
    (hsome : ∀ s, c.services.members[i]? = some s →
      c.after p = c.outcome i ((f s).map fun p => (some p.1, p.2))) :
    c.Does p (c.services.actAt i f) := by
  cases hs : c.services.members[i]? with
  | none =>
    have hreport : c.services.actAt i f = .ok (none, c.services, []) := by
      simp [Services.actAt, Services.act, hs, Except.map]
    rw [hreport]
    exact does_nothing (hnone hs)
  | some s =>
    have hreport : c.services.actAt i f = ((f s).map fun p => (some p.1, p.2)).map fun p =>
        (p.1, c.services.commit i p.2, p.2.calls) := by
      cases hf : f s <;> simp [Services.actAt, Services.act, hs, hf, Except.map, Bind.bind,
        Except.bind, Pure.pure, Except.pure]
    rw [hreport]
    exact does_of_outcome (hsome s hs)

/-- A dropoff goes step by step as it is reported. -/
theorem does_dropOff (c : Scene) (i : Nat) (vehicle : VehicleId) (id : RequestId) (now : Time) :
    c.Does (dropOffInPlace i vehicle id now)
      (c.services.actAt i (·.dropOff vehicle id now)) := by
  refine does_act (fun hnone => ?_) fun s hs => after_dropOff hs vehicle id now
  simp only [dropOffInPlace, after_bind, find, after_look, hnone, Option.bind_none, after_pure]

/-- A booking goes step by step as it is reported. -/
theorem does_book (c : Scene) (i : Nat) (now : Time) (person : PersonId) (planned : PlannedLeg) :
    c.Does (bookInPlace i now person planned)
      (c.services.actAt i (·.book now person planned)) := by
  refine does_act (fun hnone => ?_) fun s hs => after_book hs now person planned
  simp only [bookInPlace, after_bind, find, after_look, hnone, Option.bind_none, after_pure]

/-- Whatever the services are like, a departure, a dropoff or a booking that meets a fault leaves
all of them as they were, with their desks, mailboxes and numbers drawn, though it changes them step
by step; it has made no call and handed nothing to an optimizer. A departure meets a fault just if
there is an open service of its mode and, for the first such service, the traveler has no leg, or
the leg is not booked and the link that the traveler departs from, or else the end of the leg, is
not in the network. -/
theorem faults_leave_no_trace (c : Scene) :
    (∀ now who link, c.Does (departInPlace now who link) (c.services.depart now who link) ∧
      ∀ fault, (c.after (departInPlace now who link)).1 = .error fault ↔
        ∃ s, c.services.active.find? (·.mode = who.mode) = some s ∧ s.Hinders who link fault) ∧
    (∀ i vehicle id now, c.Does (dropOffInPlace i vehicle id now)
      (c.services.actAt i (·.dropOff vehicle id now))) ∧
    ∀ i now person planned, c.Does (bookInPlace i now person planned)
      (c.services.actAt i (·.book now person planned)) := by
  refine ⟨fun now who link => ?_, c.does_dropOff, c.does_book⟩
  have hdoes := c.does_depart now who link
  refine ⟨hdoes, fun fault => ?_⟩
  rw [hdoes.fails, Services.depart_eq_error_iff]

/-- A traveler departs from a link that is not in the network, with a leg that does not end in it
either: the first is reported. The next leg is booked and needs no link, and a traveler of a mode
that is not served needs no leg. -/
example :
    let leg : Leg := { mode := ⟨"drt"⟩, source := ⟨"a"⟩, target := ⟨"b"⟩, departure := 0 }
    let s : Service := {
      mode := ⟨"drt"⟩, network := .ofLinks []
      desk := some { bookings := .ofList [
        (⟨⟨"ada"⟩, 1⟩, ⟨⟨"ride"⟩, ⟨"ada"⟩, ⟨"drt"⟩, ⟨"a"⟩, ⟨"b"⟩, 0, 0, none⟩)] } }
    let departs (mode : ModeId) (planned : Option PlannedLeg) : Except Fault Bool :=
      (after { services := { members := [s] } }
        (departInPlace 5 ⟨7, ⟨"ada"⟩, mode, planned⟩ ⟨"a"⟩)).1
    departs ⟨"drt"⟩ (some ⟨0, leg⟩) = .error (.missingLink ⟨"a"⟩ ⟨"drt"⟩) ∧
      departs ⟨"drt"⟩ (some ⟨1, leg⟩) = .ok true ∧ departs ⟨"bus"⟩ none = .ok false := by
  decide +kernel

end Scene

end DialARide
