import Mathlib.Tactic.Basic

/-! Services that answer one request after the other, what is specified of them, and rules
for whole sessions: a simulation rule and an invariant rule. -/

namespace SquashfsFuse

/-- What a service may end in when it serves a request in a state: an answer and the state
it is in then, or nothing at all. -/
def Service (State : Type u) (Request : Type v) (Response : Type w) :=
  State → Request → Option (Response × State) → Prop

/-- The answer to a request and the state behind it, where the request is allowed. -/
def Specification (State : Type u) (Request : Type v) (Response : Type w) :=
  State → Request → Option (Response × State)

/-! ## Sessions -/

namespace Service

variable {State : Type u} {Request : Type v} {Response : Type w}

/-- Serve the requests one after the other. A session in which a request ends in nothing
ends in nothing. -/
inductive Session (service : Service State Request Response) :
    State → List Request → Option (List Response × State) → Prop
  | nil (state) : Session service state [] (some ([], state))
  | failed {state request requests} : service state request none →
      Session service state (request :: requests) none
  | cons {state request response next requests outcome} :
      service state request (some (response, next)) → Session service next requests outcome →
      Session service state (request :: requests)
        (outcome.map fun rest => (response :: rest.1, rest.2))

/-- The session takes place with these responses and comes to a state of the given kind,
and no other session does take place. -/
structure Answers (service : Service State Request Response) (state : State)
    (requests : List Request) (responses : List Response) (Last : State → Prop) : Prop where
  serves : ∃ last, service.Session state requests (some (responses, last)) ∧ Last last
  only : ∀ outcome, service.Session state requests outcome →
    ∃ last, outcome = some (responses, last) ∧ Last last

theorem Answers.imp {service : Service State Request Response} {state : State}
    {requests : List Request} {responses : List Response} {Last Wider : State → Prop}
    (answers : service.Answers state requests responses Last)
    (wider : ∀ state, Last state → Wider state) :
    service.Answers state requests responses Wider where
  serves := answers.serves.imp fun last session => ⟨session.1, wider last session.2⟩
  only := fun outcome session =>
    (answers.only outcome session).imp fun last ends => ⟨ends.1, wider last ends.2⟩

theorem Session.of_nil {service : Service State Request Response} {state : State}
    {outcome : Option (List Response × State)} (session : service.Session state [] outcome) :
    outcome = some ([], state) := by
  cases session
  rfl

theorem Session.of_cons {service : Service State Request Response} {state : State}
    {request : Request} {requests : List Request} {outcome : Option (List Response × State)}
    (session : service.Session state (request :: requests) outcome) :
    (service state request none ∧ outcome = none) ∨
      ∃ response next rest, service state request (some (response, next)) ∧
        service.Session next requests rest ∧
        outcome = rest.map fun rest => (response :: rest.1, rest.2) := by
  cases session with
  | failed step => exact .inl ⟨step, rfl⟩
  | cons step rest => exact .inr ⟨_, _, _, step, rest, rfl⟩

end Service

/-! ## Specified sessions -/

namespace Specification

variable {State : Type u} {Request : Type v} {Response : Type w}

/-- The answers to the requests, if all of them are allowed. -/
def run (specification : Specification State Request Response) :
    State → List Request → Option (List Response × State)
  | state, [] => some ([], state)
  | state, request :: requests => do
      let (response, next) ← specification state request
      let (responses, last) ← specification.run next requests
      some (response :: responses, last)

variable {specification : Specification State Request Response} {state next last : State}
  {request : Request} {requests : List Request} {responses : List Response}

theorem run_cons : specification.run state (request :: requests) = some (responses, last) ↔
    ∃ response next rest, specification state request = some (response, next) ∧
      specification.run next requests = some (rest, last) ∧ responses = response :: rest := by
  rw [run, Option.bind_eq_bind, Option.bind_eq_some_iff]
  constructor
  · rintro ⟨⟨response, next⟩, step, rest⟩
    rcases Option.bind_eq_some_iff.mp rest with ⟨⟨others, final⟩, run, equal⟩
    cases equal
    exact ⟨response, next, others, step, run, rfl⟩
  · rintro ⟨response, next, rest, step, run, rfl⟩
    exact ⟨(response, next), step, Option.bind_eq_some_iff.mpr ⟨(rest, last), run, rfl⟩⟩

theorem run_append {front back : List Request} :
    specification.run state (front ++ back) = some (responses, last) ↔
      ∃ early middle late, specification.run state front = some (early, middle) ∧
        specification.run middle back = some (late, last) ∧ responses = early ++ late := by
  induction front generalizing state responses with
  | nil =>
      constructor
      · intro whole
        exact ⟨[], state, responses, rfl, whole, rfl⟩
      · rintro ⟨early, middle, late, none, whole, rfl⟩
        cases none
        exact whole
  | cons request front induction =>
      rw [List.cons_append, run_cons]
      constructor
      · rintro ⟨response, next, rest, step, run, rfl⟩
        rcases induction.mp run with ⟨early, middle, late, first, second, rfl⟩
        exact ⟨response :: early, middle, late,
          run_cons.mpr ⟨response, next, early, step, first, rfl⟩, second, rfl⟩
      · rintro ⟨early, middle, late, first, second, rfl⟩
        rcases run_cons.mp first with ⟨response, next, rest, step, run, rfl⟩
        exact ⟨response, next, rest ++ late, step,
          induction.mpr ⟨rest, middle, late, run, second, rfl⟩, rfl⟩

theorem run_length (run : specification.run state requests = some (responses, last)) :
    responses.length = requests.length := by
  induction requests generalizing state responses with
  | nil =>
      cases run
      rfl
  | cons request requests induction =>
      rcases run_cons.mp run with ⟨response, next, rest, -, behind, rfl⟩
      rw [List.length_cons, List.length_cons, induction behind]

end Specification

/-! ## Services that meet a specification -/

section Meets

variable {State : Type u} {Abstract : Type v} {Request : Type w} {Response : Type x}

/-- In related states the service answers every request that is allowed, as it is specified
and in no other way, and the states behind are related again. -/
structure Service.Meets (service : Service State Request Response)
    (specification : Specification Abstract Request Response)
    (Related : State → Abstract → Prop) : Prop where
  serves : ∀ {state abstract request response after}, Related state abstract →
    specification abstract request = some (response, after) →
    ∃ next, service state request (some (response, next)) ∧ Related next after
  only : ∀ {state abstract request response after outcome}, Related state abstract →
    specification abstract request = some (response, after) →
    service state request outcome →
    ∃ next, outcome = some (response, next) ∧ Related next after

variable {service : Service State Request Response}
  {specification : Specification Abstract Request Response} {Related : State → Abstract → Prop}
  {state : State} {abstract last : Abstract} {requests : List Request}
  {responses : List Response}

theorem Service.Meets.of_unique
    (unique : ∀ state request outcome other, service state request outcome →
      service state request other → outcome = other)
    (serves : ∀ {state abstract request response after}, Related state abstract →
      specification abstract request = some (response, after) →
      ∃ next, service state request (some (response, next)) ∧ Related next after) :
    service.Meets specification Related where
  serves := serves
  only := by
    intro state abstract request response after outcome related step served
    rcases serves related step with ⟨next, expected, nextRelated⟩
    exact ⟨next, unique state request _ _ served expected, nextRelated⟩

/-- Simulation rule: a session whose requests are all allowed is answered as it is
specified. -/
theorem Service.Meets.answers (meets : service.Meets specification Related)
    (related : Related state abstract)
    (run : specification.run abstract requests = some (responses, last)) :
    service.Answers state requests responses fun final => Related final last := by
  induction requests generalizing state abstract responses with
  | nil =>
      cases run
      exact ⟨⟨state, .nil state, related⟩,
        fun outcome session => ⟨state, session.of_nil, related⟩⟩
  | cons request requests induction =>
      rcases Specification.run_cons.mp run with ⟨response, after, rest, step, behind, rfl⟩
      constructor
      · rcases meets.serves related step with ⟨next, served, nextRelated⟩
        rcases (induction nextRelated behind).serves with ⟨final, session, finalRelated⟩
        exact ⟨final, .cons served session, finalRelated⟩
      · intro outcome session
        rcases session.of_cons with ⟨failed, -⟩ | ⟨other, next, following, served, others, rfl⟩
        · rcases meets.only related step failed with ⟨next, impossible, -⟩
          cases impossible
        · rcases meets.only related step served with ⟨same, equal, nextRelated⟩
          cases equal
          rcases (induction nextRelated behind).only following others with
            ⟨final, rfl, finalRelated⟩
          exact ⟨final, rfl, finalRelated⟩

end Meets

/-! ## Services that keep going -/

section Keeps

variable {State : Type u} {Request : Type v} {Response : Type w}

/-- Each request is allowed in every state that the service may be in by then. -/
def Service.Obeys (service : Service State Request Response) (Allowed : State → Request → Prop) :
    State → List Request → Prop
  | _, [] => True
  | state, request :: requests => Allowed state request ∧
      ∀ response next, service state request (some (response, next)) →
        service.Obeys Allowed next requests

/-- In states with the invariant the service answers every request that is allowed, and
whatever it ends in is an answer and a state with the invariant again. -/
structure Service.Keeps (service : Service State Request Response) (Inv : State → Prop)
    (Allowed : State → Request → Prop) : Prop where
  serves : ∀ {state request}, Inv state → Allowed state request →
    ∃ response next, service state request (some (response, next))
  only : ∀ {state request outcome}, Inv state → Allowed state request →
    service state request outcome → ∃ response next, outcome = some (response, next) ∧ Inv next

variable {service : Service State Request Response} {Inv : State → Prop}
  {Allowed : State → Request → Prop} {state : State} {requests : List Request}

theorem Service.Keeps.of_unique
    (unique : ∀ state request outcome other, service state request outcome →
      service state request other → outcome = other)
    (serves : ∀ {state request}, Inv state → Allowed state request →
      ∃ response next, service state request (some (response, next)) ∧ Inv next) :
    service.Keeps Inv Allowed where
  serves := by
    intro state request holds allowed
    rcases serves holds allowed with ⟨response, next, served, -⟩
    exact ⟨response, next, served⟩
  only := by
    intro state request outcome holds allowed served
    rcases serves holds allowed with ⟨response, next, expected, nextHolds⟩
    exact ⟨response, next, unique state request _ _ served expected, nextHolds⟩

/-- Invariant rule: a session whose requests are all allowed takes place, and in every way it
can go each request is answered. -/
theorem Service.Keeps.answered (keeps : service.Keeps Inv Allowed) (holds : Inv state)
    (obeys : service.Obeys Allowed state requests) :
    (∃ responses last, service.Session state requests (some (responses, last))) ∧
      ∀ outcome, service.Session state requests outcome →
        ∃ responses last, outcome = some (responses, last) ∧
          responses.length = requests.length ∧ Inv last := by
  induction requests generalizing state with
  | nil =>
      exact ⟨⟨[], state, .nil state⟩,
        fun outcome session => ⟨[], state, session.of_nil, rfl, holds⟩⟩
  | cons request requests induction =>
      rcases obeys with ⟨allowed, behind⟩
      constructor
      · rcases keeps.serves holds allowed with ⟨response, next, served⟩
        rcases keeps.only holds allowed served with ⟨_, _, equal, nextHolds⟩
        cases equal
        rcases (induction nextHolds (behind response next served)).1 with
          ⟨responses, last, session⟩
        exact ⟨_, last, .cons served session⟩
      · intro outcome session
        rcases session.of_cons with ⟨failed, -⟩ | ⟨response, next, rest, served, others, rfl⟩
        · rcases keeps.only holds allowed failed with ⟨_, _, impossible, -⟩
          cases impossible
        · rcases keeps.only holds allowed served with ⟨_, _, equal, nextHolds⟩
          cases equal
          rcases (induction nextHolds (behind response next served)).2 rest others with
            ⟨responses, last, rfl, length, lastHolds⟩
          exact ⟨response :: responses, last, rfl, congrArg Nat.succ length, lastHolds⟩

end Keeps

end SquashfsFuse
