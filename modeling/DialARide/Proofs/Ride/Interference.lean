import DialARide.Proofs.Ride.Course
import DialARide.Proofs.Ride.Operation

/-!
# Modes do not interfere

The services share one optimizer and one channel of rejections, and whatever is asked of them
comes in any order. Still a service cannot tell what is asked of services of other modes: it
answers, calls and ends as if it had been asked for nothing but what belongs to its own mode.

The part of all services that belongs to a mode is looked at as a whole, by `share`. A command of
another mode leaves this share alone, and what a command of the mode does depends on it only.
-/

namespace DialARide

/-- What can be asked of services that stand side by side. -/
inductive Command where
  | depart (now : Time) (who : Departing) (link : LinkId)
  | await (mode : ModeId) (stop : EntityId) (id : RequestId)
  | pickUp (mode : ModeId) (vehicle : VehicleId) (id : RequestId) (now : Time)
  | dropOff (mode : ModeId) (vehicle : VehicleId) (id : RequestId) (now : Time)
  | book (mode : ModeId) (now : Time) (person : PersonId) (planned : PlannedLeg)
  | step (mode : ModeId) (now : Time)
  | publish (r : Rejection)
  deriving DecidableEq, Repr

/-- The mode to which a command belongs. A departure belongs to the mode of the traveler, and a
publication to the mode of the rejection. -/
def Command.mode : Command → ModeId
  | .depart _ who _ => who.mode
  | .await mode .. | .pickUp mode .. | .dropOff mode .. | .book mode .. | .step mode _ => mode
  | .publish r => r.mode

/-- The call on a service that a command is. -/
def Command.operation : Command → Operation
  | .depart now who link => .depart now who link
  | .await _ stop id => .await stop id
  | .pickUp _ vehicle id now => .pickUp vehicle id now
  | .dropOff _ vehicle id now => .dropOff vehicle id now
  | .book _ now person planned => .book now person planned
  | .step _ now => .step now
  | .publish r => .reject r

/-- What is returned for a command. -/
inductive Reply where
  /-- The mode has no service for the command. -/
  | unserved
  | published
  /-- Whether the traveler was taken. -/
  | departed (taken : Bool)
  /-- Whether the passenger is there. -/
  | awaited (isThere : Bool)
  /-- Whether the passenger boarded. -/
  | pickedUp (boarded : Bool)
  | droppedOff (traveler : EntityId)
  | booked (name : Option RequestId)
  /-- The number of journeys that were aborted. -/
  | stepped (aborted : Nat)
  deriving DecidableEq, Repr

/-- What is returned for a command where no service carries it out. -/
def Command.unserved : Command → Reply
  | .depart .. => .departed false
  | _ => .unserved

/-- All that comes of a command: what is returned and what the simulation is told. -/
structure Outcome where
  reply : Except Fault Reply
  calls : List Call := []

namespace Services

/-! ## Commands -/

/-- Lets the services carry out a command. A fault leaves them as they are. -/
def carryOut (h : Services) : Command → Outcome × Services
  | .depart now who link =>
    match h.depart now who link with
    | .error fault => ({ reply := .error fault }, h)
    | .ok (taken, h, calls) => ({ reply := .ok (.departed taken), calls }, h)
  | .await mode stop id =>
    match h.position? mode with
    | none => ({ reply := .ok .unserved }, h)
    | some i =>
      let (isThere, h) := h.awaitPassenger i stop id
      ({ reply := .ok (.awaited isThere) }, h)
  | .pickUp mode vehicle id now =>
    match h.position? mode with
    | none => ({ reply := .ok .unserved }, h)
    | some i =>
      let (boarded, h, calls) := h.pickUp i vehicle id now
      ({ reply := .ok (.pickedUp boarded), calls }, h)
  | .dropOff mode vehicle id now =>
    match h.position? mode with
    | none => ({ reply := .ok .unserved }, h)
    | some i =>
      match h.act i (·.dropOff vehicle id now) with
      | .error fault => ({ reply := .error fault }, h)
      | .ok none => ({ reply := .ok .unserved }, h)
      | .ok (some (traveler, h, calls)) => ({ reply := .ok (.droppedOff traveler), calls }, h)
  | .book mode now person planned =>
    match h.deskPosition? mode with
    | none => ({ reply := .ok .unserved }, h)
    | some i =>
      match h.act i (·.book now person planned) with
      | .error fault => ({ reply := .error fault }, h)
      | .ok none => ({ reply := .ok .unserved }, h)
      | .ok (some (name, h, calls)) => ({ reply := .ok (.booked name), calls }, h)
  | .step mode now =>
    match h.position? mode with
    | none => ({ reply := .ok .unserved }, h)
    | some i =>
      let (aborted, h, calls) := h.stepAt i now
      ({ reply := .ok (.stepped aborted), calls }, h)
  | .publish r => ({ reply := .ok .published }, h.publish r)

/-- Lets the services carry out commands one after the other, and lists what comes of each. -/
def carryOutAll : Services → List Command → List (Command × Outcome) × Services
  | h, [] => ([], h)
  | h, e :: rest =>
    let (outcome, h) := h.carryOut e
    let (log, h) := carryOutAll h rest
    ((e, outcome) :: log, h)

/-- The position of the service that carries out a command of a mode. -/
def place? (h : Services) : Command → Option Nat
  | .book mode .. => h.deskPosition? mode
  | e => h.position? e.mode

end Services

/-! ## One service carries out a command -/

namespace Service

/-- What a service returns for a command. -/
def reply (s : Service) : Command → Except Fault Reply
  | .depart now who link => (s.depart now who link).map fun t => .departed t.isSome
  | .await _ stop id => .ok (.awaited (s.awaitPassenger stop id).1)
  | .pickUp _ vehicle id now => .ok (.pickedUp (s.pickUp vehicle id now).isSome)
  | .dropOff _ vehicle id now => (s.dropOff vehicle id now).map fun p => .droppedOff p.1
  | .book _ now person planned => (s.book now person planned).map fun p => .booked p.1
  | .step _ now => .ok (.stepped (s.step now).aborted)
  | .publish _ => .ok .published

variable {s : Service} {now : Time} {occasion : Occasion} {t : Turn}

/-- What a service submits is of its mode. -/
theorem Act.mode_of_submitted (ha : s.Act now occasion t) {r : Request} (hr : r ∈ t.submitted) :
    r.mode = s.mode := by
  cases ha with
  | book desk key q hd hid hmode | departNow traveler q hwho hid hmode =>
    rw [List.mem_singleton.1 hr]
    exact hmode
  | hear | await | declineBooking | departRejected | departBooked | departDeclined | pickUp
  | dropOff | reject | park | discard => cases hr

theorem Acts.mode (ha : Acts now occasion s t) : t.service.mode = s.mode :=
  ha.keeps (P := fun u => u.mode = s.mode) (fun _ _ hu hact => hact.terms.1.trans hu) rfl

theorem Acts.mode_of_submitted (ha : Acts now occasion s t) {r : Request}
    (hr : r ∈ t.submitted) : r.mode = s.mode := by
  induction ha with
  | nil => cases hr
  | cons hact _ ih =>
    rcases List.mem_append.1 hr with hr | hr
    · exact hact.mode_of_submitted hr
    · exact (ih hr).trans hact.terms.1

/-- A service does not hear the rejections of other modes. -/
theorem hear_eq_self {published : List Rejection} (h : ∀ r ∈ published, r.mode ≠ s.mode) :
    s.hear published = s := by
  obtain ⟨more, heq, hmore⟩ := s.exists_hear published
  have hnone : more = [] :=
    List.eq_nil_iff_forall_not_mem.2 fun r hr => h r (hmore r hr).1 (hmore r hr).2
  rw [heq, hnone, List.append_nil]

/-- The service if it serves the mode. -/
def ofMode? (mode : ModeId) (s : Service) : Option Service :=
  if s.mode = mode then some s else none

theorem ofMode?_hear (mode : ModeId) (s : Service) (published : List Rejection) :
    (s.hear published).ofMode? mode = (s.ofMode? mode).map (·.hear published) := by
  unfold ofMode?
  rw [mode_hear]
  split <;> rfl

end Service

namespace Services

variable {h h' : Services} {i : Nat} {s : Service} {t : Turn} {e : Command} {mode : ModeId}

/-- A command that finds its service is carried out by that service alone. -/
theorem carryOut_eq (hpublish : ∀ r, e ≠ .publish r) (hi : h.place? e = some i)
    (hs : h.members[i]? = some s) :
    h.carryOut e = ({ reply := s.reply e, calls := (s.perform e.operation).calls },
      h.commit i (s.perform e.operation)) := by
  cases e with
  | depart now who link =>
    have hi : h.position? who.mode = some i := hi
    cases hd : s.depart now who link with
    | error fault =>
      simp [carryOut, depart, departAt, hi, hs, hd, Service.reply, Service.perform,
        Command.operation, commit_self hs, Bind.bind, Except.bind, Except.map]
    | ok turn =>
      cases turn <;>
        simp [carryOut, depart, departAt, hi, hs, hd, Service.reply, Service.perform,
          Command.operation, commit_self hs, Bind.bind, Except.bind, Pure.pure, Except.pure,
          Except.map]
  | await mode stop id =>
    have hi : h.position? mode = some i := hi
    simp [carryOut, hi, awaitPassenger, hs, Service.reply, Service.perform, Command.operation,
      commit_quiet]
  | pickUp mode vehicle id now =>
    have hi : h.position? mode = some i := hi
    cases hp : s.pickUp vehicle id now <;>
      simp [carryOut, hi, pickUp, hs, hp, Service.reply, Service.perform, Command.operation,
        commit_self hs]
  | dropOff mode vehicle id now =>
    have hi : h.position? mode = some i := hi
    cases hp : s.dropOff vehicle id now <;>
      simp [carryOut, hi, act, hs, hp, Service.reply, Service.perform, Command.operation,
        commit_self hs, Bind.bind, Except.bind, Pure.pure, Except.pure, Except.map]
  | book mode now person planned =>
    have hi : h.deskPosition? mode = some i := hi
    cases hp : s.book now person planned <;>
      simp [carryOut, hi, act, hs, hp, Service.reply, Service.perform, Command.operation,
        commit_self hs, Bind.bind, Except.bind, Pure.pure, Except.pure, Except.map]
  | step mode now =>
    have hi : h.position? mode = some i := hi
    simp [carryOut, hi, stepAt, hs, Service.reply, Service.perform, Command.operation]
  | publish r => exact absurd rfl (hpublish r)

/-- A command that does not find its service comes to nothing. -/
theorem carryOut_of_place?_eq_none (hpublish : ∀ r, e ≠ .publish r) (hi : h.place? e = none) :
    h.carryOut e = ({ reply := .ok e.unserved }, h) := by
  cases e with
  | depart now who link =>
    have hi : h.position? who.mode = none := hi
    simp [carryOut, depart, hi, Command.unserved]
  | await mode | pickUp mode | dropOff mode | step mode =>
    have hi : h.position? mode = none := hi
    simp [carryOut, hi, Command.unserved]
  | book mode =>
    have hi : h.deskPosition? mode = none := hi
    simp [carryOut, hi, Command.unserved]
  | publish r => exact absurd rfl (hpublish r)

/-! ## The share of a mode -/

/-- The services of a mode at their positions. -/
def ofMode (h : Services) (mode : ModeId) : List (Option Service) :=
  h.members.map (·.ofMode? mode)

/-- All that a mode has to do with: its services, what they submitted, and the optimizer. -/
def share (h : Services) (mode : ModeId) :
    List (Option Service) × List Request × (Request → Option String) :=
  (h.ofMode mode, h.submitted.filter (·.mode = mode), h.verdict)

theorem getElem?_ofMode (mode : ModeId) (hs : h.members[i]? = some s) :
    (h.ofMode mode)[i]? = some (s.ofMode? mode) := by
  rw [ofMode, List.getElem?_map, hs]
  rfl

/-- The service that carries out a command can be told from the share of the mode. -/
theorem place?_eq (h : Services) (e : Command) : h.place? e = (h.ofMode e.mode).findIdx? fun s =>
    s.any fun s => match e with | .book .. => s.desk.isSome | _ => !s.closed := by
  have hfind (p : Service → Bool) (mode : ModeId) :
      (h.members.findIdx? fun s => p s && s.mode = mode) =
        (h.ofMode mode).findIdx? fun s => s.any p := by
    rw [ofMode, List.findIdx?_map]
    congr 1
    funext s
    by_cases hm : s.mode = mode <;> simp [Service.ofMode?, hm]
  cases e with
  | book mode now person planned => exact hfind (·.desk.isSome) mode
  | depart | await | pickUp | dropOff | step | publish => exact hfind (!·.closed) _

/-- The service that carries out a command serves the mode of the command. -/
theorem exists_of_place? (hi : h.place? e = some i) : ∃ s, h.members[i]? = some s ∧
    (h.ofMode e.mode)[i]? = some (some s) ∧ s.mode = e.mode := by
  rw [place?_eq] at hi
  obtain ⟨hlt, hs, -⟩ := List.findIdx?_eq_some_iff_getElem.1 hi
  have hi : i < h.members.length := by simpa [ofMode] using hlt
  have hget := getElem?_ofMode e.mode (List.getElem?_eq_getElem hi)
  by_cases hmode : h.members[i].mode = e.mode
  · rw [Service.ofMode?, if_pos hmode] at hget
    exact ⟨h.members[i], List.getElem?_eq_getElem hi, hget, hmode⟩
  · rw [List.getElem?_eq_getElem hlt, Service.ofMode?, if_neg hmode] at hget
    simp [Option.some.inj hget] at hs

/-- The services of a mode after a turn. -/
theorem ofMode_commit (h : Services) (i : Nat) (t : Turn) (mode : ModeId) :
    (h.commit i t).ofMode mode = ((h.ofMode mode).set i (t.service.ofMode? mode)).map
      (·.map (·.hear (h.answersTo t))) := by
  rw [ofMode, members_commit, List.map_map, ofMode, ← List.map_set, List.map_map]
  exact List.map_congr_left fun s _ => s.ofMode?_hear mode _

/-- What becomes of the share of a mode by a turn depends on the share only. -/
theorem share_commit (hshare : h.share mode = h'.share mode) (i : Nat) (t : Turn) :
    (h.commit i t).share mode = (h'.commit i t).share mode := by
  simp only [share, Prod.mk.injEq] at hshare ⊢
  obtain ⟨hmembers, hlog, hverdict⟩ := hshare
  have hanswers : h.answersTo t = h'.answersTo t := by simp [answersTo, answers, hverdict]
  refine ⟨?_, ?_, ?_⟩
  · rw [ofMode_commit, ofMode_commit, hmembers, hanswers]
  · rw [submitted_commit, submitted_commit, List.filter_append, List.filter_append, hlog]
  · rw [verdict_commit, verdict_commit, hverdict]

/-- A publication is a turn of nobody. -/
theorem ofMode_publish (h : Services) (r : Rejection) (mode : ModeId) :
    (h.publish r).ofMode mode = (h.ofMode mode).map (·.map (·.hear [r])) := by
  rw [ofMode, members_publish, List.map_map, ofMode, List.map_map]
  exact List.map_congr_left fun s _ => s.ofMode?_hear mode _

theorem share_publish (hshare : h.share mode = h'.share mode) (r : Rejection) :
    (h.publish r).share mode = (h'.publish r).share mode := by
  simp only [share, Prod.mk.injEq] at hshare ⊢
  rw [ofMode_publish, ofMode_publish, hshare.1]
  exact ⟨rfl, hshare.2⟩

/-- The services of a mode do not hear what concerns other modes. -/
theorem map_hear_ofMode {published : List Rejection} (hne : ∀ r ∈ published, r.mode ≠ mode) :
    (h.ofMode mode).map (·.map (·.hear published)) = h.ofMode mode := by
  rw [ofMode, List.map_map]
  refine List.map_congr_left fun s _ => ?_
  rw [Function.comp_apply, ← s.ofMode?_hear]
  by_cases hmode : s.mode = mode
  · rw [Service.hear_eq_self fun r hr => hmode ▸ hne r hr]
  · simp [Service.ofMode?, hmode]

/-- A turn of a service of another mode leaves the share alone. -/
private theorem share_commit_of_ne (hs : h.members[i]? = some s) (hne : s.mode ≠ mode)
    (ht : t.service.mode = s.mode) (hsubmitted : ∀ r ∈ t.submitted, r.mode = s.mode) :
    (h.commit i t).share mode = h.share mode := by
  have hservice : (h.ofMode mode).set i (t.service.ofMode? mode) = h.ofMode mode := by
    rw [Service.ofMode?, if_neg (ht ▸ hne)]
    obtain ⟨hi, rfl⟩ := List.getElem?_eq_some_iff.1 hs
    have hlt : i < (h.ofMode mode).length := by simpa [ofMode] using hi
    have hget := getElem?_ofMode mode hs
    rw [List.getElem?_eq_getElem hlt, Service.ofMode?, if_neg hne] at hget
    rw [← Option.some.inj hget]
    exact List.set_getElem_self hlt
  have hanswers : ∀ r ∈ h.answersTo t, r.mode ≠ mode := fun r hr => by
    obtain ⟨q, hq, -, hmode⟩ := exists_of_mem_answersTo hr
    rw [hmode, hsubmitted q hq]
    exact hne
  have hlog : (if t.service.ownOptimizer then [] else t.submitted).filter (·.mode = mode) = [] := by
    split
    · rfl
    · exact List.filter_eq_nil_iff.2 fun r hr => by simpa [hsubmitted r hr] using hne
  rw [share, share, ofMode_commit, hservice, map_hear_ofMode hanswers, submitted_commit,
    List.filter_append, hlog, List.append_nil, verdict_commit]

/-! ## Commands of one mode and of others -/

/-- A command of another mode leaves the share of a mode alone. -/
private theorem share_carryOut_of_ne (hne : e.mode ≠ mode) :
    (h.carryOut e).2.share mode = h.share mode := by
  by_cases hpublish : ∃ r, e = .publish r
  · obtain ⟨r, rfl⟩ := hpublish
    rw [carryOut, share, ofMode_publish, map_hear_ofMode (by simpa [Command.mode] using hne)]
    rfl
  · have hpublish : ∀ r, e ≠ .publish r := fun r he => hpublish ⟨r, he⟩
    cases hi : h.place? e with
    | none => rw [carryOut_of_place?_eq_none hpublish hi]
    | some i =>
      obtain ⟨s, hs, -, hmode⟩ := exists_of_place? hi
      rw [carryOut_eq hpublish hi hs]
      have hacts := s.acts_perform e.operation
      exact share_commit_of_ne hs (hmode ▸ hne) hacts.mode fun r => hacts.mode_of_submitted

/-- What comes of a command, and what becomes of the share of its mode, depends on that share
only. -/
private theorem carryOut_eq_of_share (hshare : h.share e.mode = h'.share e.mode) :
    (h.carryOut e).1 = (h'.carryOut e).1 ∧
      (h.carryOut e).2.share e.mode = (h'.carryOut e).2.share e.mode := by
  by_cases hpublish : ∃ r, e = .publish r
  · obtain ⟨r, rfl⟩ := hpublish
    exact ⟨rfl, share_publish hshare r⟩
  · have hpublish : ∀ r, e ≠ .publish r := fun r he => hpublish ⟨r, he⟩
    have hmembers : h.ofMode e.mode = h'.ofMode e.mode := congrArg Prod.fst hshare
    have hplace : h.place? e = h'.place? e := by rw [place?_eq, place?_eq, hmembers]
    cases hi : h.place? e with
    | none =>
      rw [carryOut_of_place?_eq_none hpublish hi,
        carryOut_of_place?_eq_none hpublish (hplace ▸ hi)]
      exact ⟨rfl, hshare⟩
    | some i =>
      have hi' : h'.place? e = some i := hplace ▸ hi
      obtain ⟨s, hs, hown, -⟩ := exists_of_place? hi
      obtain ⟨s', hs', hown', -⟩ := exists_of_place? hi'
      obtain rfl : s = s' := by
        rw [hmembers, hown'] at hown
        exact (Option.some.inj (Option.some.inj hown)).symm
      rw [carryOut_eq hpublish hi hs, carryOut_eq hpublish hi' hs']
      exact ⟨rfl, share_commit hshare i _⟩

/-- From equal shares, commands of many modes and those of the one mode among them lead to the same
for this mode. -/
theorem carryOutAll_of_share (mode : ModeId) (commands : List Command)
    (hshare : h.share mode = h'.share mode) :
    (h.carryOutAll commands).1.filter (·.1.mode = mode) =
        (h'.carryOutAll (commands.filter (·.mode = mode))).1 ∧
      (h.carryOutAll commands).2.share mode =
        (h'.carryOutAll (commands.filter (·.mode = mode))).2.share mode := by
  induction commands generalizing h h' with
  | nil => exact ⟨rfl, hshare⟩
  | cons e rest ih =>
    by_cases hmode : e.mode = mode
    · subst hmode
      obtain ⟨houtcome, hnext⟩ := carryOut_eq_of_share hshare
      obtain ⟨hlog, hend⟩ := ih hnext
      rw [List.filter_cons_of_pos (by simp)]
      simp only [carryOutAll]
      rw [List.filter_cons_of_pos (by simp), hlog, houtcome]
      exact ⟨rfl, hend⟩
    · obtain ⟨hlog, hend⟩ := ih ((share_carryOut_of_ne hmode).trans hshare)
      rw [List.filter_cons_of_neg (by simpa using hmode)]
      simp only [carryOutAll]
      rw [List.filter_cons_of_neg (by simpa using hmode)]
      exact ⟨hlog, hend⟩

/-- The services of a mode can be told from its share. -/
theorem filter_members_eq (h : Services) (mode : ModeId) :
    h.members.filter (·.mode = mode) = (h.ofMode mode).filterMap id := by
  rw [ofMode, List.filterMap_map, ← List.filterMap_eq_filter]
  congr 1
  funext s
  simp [Option.guard, Service.ofMode?]

/-- Modes do not interfere. Whatever services share an optimizer and a channel of rejections, and
whatever is asked of them: everything that is returned and called for a mode, and everything that
its services hold and have submitted in the end, is as if nothing had been asked for the sake of
any other mode. -/
theorem unaffected_by_other_modes (h : Services) (mode : ModeId) (commands : List Command) :
    let whole := h.carryOutAll commands
    let alone := h.carryOutAll (commands.filter (·.mode = mode))
    whole.1.filter (·.1.mode = mode) = alone.1 ∧
      whole.2.members.filter (·.mode = mode) = alone.2.members.filter (·.mode = mode) ∧
      whole.2.submitted.filter (·.mode = mode) = alone.2.submitted.filter (·.mode = mode) := by
  intro whole alone
  obtain ⟨hlog, hend⟩ := carryOutAll_of_share mode commands (rfl : h.share mode = h.share mode)
  have hmembers : whole.2.ofMode mode = alone.2.ofMode mode := congrArg Prod.fst hend
  refine ⟨hlog, ?_, congrArg (·.2.1) hend⟩
  rw [filter_members_eq, filter_members_eq, hmembers]

end Services

end DialARide
