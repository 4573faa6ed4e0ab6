import Mathlib.Data.List.Basic
import Mathlib.Logic.Function.Basic
import Mathlib.Tactic.Common

/-! Programs that call a shared object, threads that run them in any order, and rules for all
orders: one for what the threads come to and how soon, and one for what they use of the object. -/

namespace SquashfsFuse

inductive Program (Request : Type u) (Answer : Request → Type v) (α : Type w)
  | done (value : α)
  | call (request : Request) (next : Answer request → Program Request Answer α)

/-- What a request to the object ends in: an answer and the state behind it, or nothing at
all. -/
def SharedObject (State : Type u) (Request : Type v) (Answer : Request → Type w) :=
  State → (request : Request) → Option (Answer request × State)

namespace Program

variable {State : Type u} {Request : Type v} {Answer : Request → Type w} {α : Type x} {β : Type y}

def bind : Program Request Answer α → (α → Program Request Answer β) → Program Request Answer β
  | .done value, rest => rest value
  | .call request next, rest => .call request fun answer => (next answer).bind rest

def map (change : α → β) (program : Program Request Answer α) : Program Request Answer β :=
  program.bind fun value => .done (change value)

/-- The program on its own. -/
def run (object : SharedObject State Request Answer) :
    Program Request Answer α → State → Option (α × State)
  | .done value, state => some (value, state)
  | .call request next, state =>
      (object state request).bind fun (answer, after) => (next answer).run object after

section Run

variable {object : SharedObject State Request Answer} {state after : State}

theorem run_call {request : Request} {next : Answer request → Program Request Answer α}
    {answer : Answer request} (served : object state request = some (answer, after)) :
    (call request next).run object state = (next answer).run object after := by
  rw [run, served]
  rfl

theorem run_bind {program : Program Request Answer α} {rest : α → Program Request Answer β}
    {value : α} (ran : program.run object state = some (value, after)) :
    (program.bind rest).run object state = (rest value).run object after := by
  induction program generalizing state with
  | done value =>
      cases ran
      rfl
  | call request next induction =>
      rw [run, Option.bind_eq_some_iff] at ran
      rcases ran with ⟨⟨answer, middle⟩, served, ran⟩
      rw [bind, run_call served]
      exact induction answer ran

theorem run_map {program : Program Request Answer α} {change : α → β} {value : α}
    (ran : program.run object state = some (value, after)) :
    (program.map change).run object state = some (change value, after) :=
  run_bind ran

end Run

/-! ## What a program comes to -/

section Meets

variable {Allowed : Request → Prop} {Replied : (request : Request) → Answer request → Prop}
  {post wider : Nat → α → Prop} {budget more : Nat}

/-- Within a budget of calls the program makes only requests that are allowed and, as long as
it is replied to, ends in what is wanted with what is left of the budget. -/
def Meets (Allowed : Request → Prop) (Replied : (request : Request) → Answer request → Prop)
    (post : Nat → α → Prop) : Program Request Answer α → Nat → Prop
  | .done value, budget => post budget value
  | .call request next, budget => 0 < budget ∧ Allowed request ∧
      ∀ answer, Replied request answer → (next answer).Meets Allowed Replied post (budget - 1)

theorem Meets.mono {program : Program Request Answer α}
    (meets : program.Meets Allowed Replied post budget)
    (weaker : ∀ left value, post left value → wider left value) :
    program.Meets Allowed Replied wider budget := by
  induction program generalizing budget with
  | done value => exact weaker budget value meets
  | call request next induction =>
      exact ⟨meets.1, meets.2.1, fun answer replied => induction answer (meets.2.2 answer replied)⟩

theorem Meets.bind {program : Program Request Answer α} {rest : α → Program Request Answer β}
    {last : Nat → β → Prop}
    (meets : program.Meets Allowed Replied
      (fun left value => (rest value).Meets Allowed Replied last left) budget) :
    (program.bind rest).Meets Allowed Replied last budget := by
  induction program generalizing budget with
  | done value => exact meets
  | call request next induction =>
      exact ⟨meets.1, meets.2.1, fun answer replied => induction answer (meets.2.2 answer replied)⟩

theorem Meets.map {program : Program Request Answer α} {change : α → β} {last : Nat → β → Prop}
    (meets : program.Meets Allowed Replied (fun left value => last left (change value)) budget) :
    (program.map change).Meets Allowed Replied last budget :=
  Meets.bind meets

theorem Meets.call {request : Request} {next : Answer request → Program Request Answer α}
    (allowed : Allowed request)
    (goesOn : ∀ answer, Replied request answer →
      (next answer).Meets Allowed Replied post budget) :
    (Program.call request next).Meets Allowed Replied post (budget + 1) :=
  ⟨Nat.succ_pos budget, allowed, goesOn⟩

end Meets

/-! ## What a program uses -/

section Uses

variable {Obj : Type z} {uses : Request → Option Obj}
  {gives : (request : Request) → Answer request → Option Obj}

def about (uses : Request → Option Obj) : Program Request Answer α → Option Obj
  | .done _ => none
  | .call request _ => uses request

def Careful (uses : Request → Option Obj)
    (gives : (request : Request) → Answer request → Option Obj) :
    Program Request Answer α → Prop
  | .done _ => True
  | .call request next => ∀ answer,
      (∀ obj, (next answer).about uses = some obj → gives request answer = some obj) ∧
        (next answer).Careful uses gives

theorem Careful.bind {program : Program Request Answer α} {rest : α → Program Request Answer β}
    (careful : program.Careful uses gives)
    (restCareful : ∀ value, (rest value).about uses = none ∧ (rest value).Careful uses gives) :
    (program.bind rest).Careful uses gives := by
  have sameUse : ∀ (first : Program Request Answer α) (obj : Obj),
      (first.bind rest).about uses = some obj → first.about uses = some obj := by
    intro first obj used
    cases first with
    | done value =>
        rw [Program.bind, (restCareful value).1] at used
        cases used
    | call request next => exact used
  induction program with
  | done value => exact (restCareful value).2
  | call request next induction =>
      intro answer
      exact ⟨fun obj used => (careful answer).1 obj (sameUse _ obj used),
        induction answer (careful answer).2⟩

theorem Careful.map {program : Program Request Answer α} {change : α → β}
    (careful : program.Careful uses gives) : (program.map change).Careful uses gives :=
  careful.bind fun _ => ⟨rfl, trivial⟩

end Uses

end Program

/-! ## Threads -/

structure Crowd (Thread : Type u) (State : Type v) (Request : Type w)
    (Answer : Request → Type x) (Local : Type y) where
  shared : State
  programs : Thread → Program Request Answer Local

namespace Crowd

variable {Thread : Type u} [DecidableEq Thread] {State : Type v} {Request : Type w}
  {Answer : Request → Type x} {Local : Type y}

section Steps

variable (object : SharedObject State Request Answer)
  (goOn : Local → Option (Program Request Answer Local))

/-- The next step of a thread: a call, or the start of the program behind the last one. A thread
that is finished stays where it is. -/
def step (crowd : Crowd Thread State Request Answer Local) (thread : Thread) :
    Option (Crowd Thread State Request Answer Local) :=
  match crowd.programs thread with
  | .done value =>
      match goOn value with
      | none => some crowd
      | some program =>
          some { crowd with programs := Function.update crowd.programs thread program }
  | .call request next =>
      (object crowd.shared request).map fun (answer, shared) =>
        { shared, programs := Function.update crowd.programs thread (next answer) }

/-- The steps of the threads in the order of the schedule. -/
def run (crowd : Crowd Thread State Request Answer Local) :
    List Thread → Option (Crowd Thread State Request Answer Local)
  | [] => some crowd
  | thread :: schedule => (crowd.step object goOn thread).bind fun next => next.run schedule

variable {object} {goOn} {crowd : Crowd Thread State Request Answer Local} {thread : Thread}

theorem step_rests {value : Local} (program : crowd.programs thread = .done value)
    (behind : goOn value = none) : crowd.step object goOn thread = some crowd := by
  simp only [step, program, behind]

theorem step_goesOn {value : Local} {rest : Program Request Answer Local}
    (program : crowd.programs thread = .done value) (behind : goOn value = some rest) :
    crowd.step object goOn thread =
      some { crowd with programs := Function.update crowd.programs thread rest } := by
  simp only [step, program, behind]

theorem step_call {request : Request} {next : Answer request → Program Request Answer Local}
    (program : crowd.programs thread = .call request next) :
    crowd.step object goOn thread =
      (object crowd.shared request).map fun (answer, shared) =>
        { shared, programs := Function.update crowd.programs thread (next answer) } := by
  simp only [step, program]

theorem step_other {next : Crowd Thread State Request Answer Local} {other : Thread}
    (stepped : crowd.step object goOn thread = some next) (different : other ≠ thread) :
    next.programs other = crowd.programs other := by
  cases program : crowd.programs thread with
  | done value =>
      cases behind : goOn value with
      | none =>
          rw [step_rests program behind] at stepped
          cases stepped
          rfl
      | some rest =>
          rw [step_goesOn program behind] at stepped
          cases stepped
          exact Function.update_of_ne different ..
  | call request rest =>
      rw [step_call program] at stepped
      rcases Option.map_eq_some_iff.mp stepped with ⟨⟨answer, shared⟩, -, rfl⟩
      exact Function.update_of_ne different ..

end Steps

/-! ## A thread alone -/

section Alone

variable {object : SharedObject State Request Answer}
  {goOn : Local → Option (Program Request Answer Local)}
  {crowd middle : Crowd Thread State Request Answer Local} {thread : Thread}

theorem run_append {schedule : List Thread} (more : List Thread)
    (ran : crowd.run object goOn schedule = some middle) :
    crowd.run object goOn (schedule ++ more) = middle.run object goOn more := by
  induction schedule generalizing crowd with
  | nil =>
      cases ran
      rfl
  | cons first schedule induction =>
      rw [run, Option.bind_eq_some_iff] at ran
      rcases ran with ⟨next, stepped, ran⟩
      rw [List.cons_append, run, stepped, Option.bind_some]
      exact induction ran

theorem run_alone {program : Program Request Answer Local} {value : Local} {after : State}
    (inside : crowd.programs thread = program)
    (ran : program.run object crowd.shared = some (value, after)) :
    ∃ steps, crowd.run object goOn (List.replicate steps thread) = some {
      shared := after
      programs := Function.update crowd.programs thread (.done value) } := by
  induction program generalizing crowd with
  | done last =>
      cases ran
      refine ⟨0, ?_⟩
      rw [← inside, Function.update_eq_self]
      rfl
  | call request next induction =>
      rw [Program.run, Option.bind_eq_some_iff] at ran
      rcases ran with ⟨⟨answer, shared⟩, served, ran⟩
      have stepped : crowd.step object goOn thread = some
          { shared, programs := Function.update crowd.programs thread (next answer) } := by
        rw [step_call inside, served]
        rfl
      rcases @induction answer
        { shared, programs := Function.update crowd.programs thread (next answer) }
        (Function.update_self ..) ran with ⟨steps, rest⟩
      refine ⟨steps + 1, ?_⟩
      rw [List.replicate_succ, run, stepped, Option.bind_some, rest, Function.update_idem]

end Alone

/-! ## What the threads come to -/

def Finished (goOn : Local → Option (Program Request Answer Local))
    (crowd : Crowd Thread State Request Answer Local) (thread : Thread) : Prop :=
  ∃ value, crowd.programs thread = .done value ∧ goOn value = none

/-- What makes the rule for all orders: requests that are allowed keep the invariant of the
object and are replied to, and behind a program comes one that keeps the invariant of the
thread. Every step costs one of the budget. -/
structure Discipline (object : SharedObject State Request Answer)
    (goOn : Local → Option (Program Request Answer Local)) (Inv : State → Prop)
    (Allowed : Request → Prop) (Replied : (request : Request) → Answer request → Prop)
    (Keeps : Thread → Nat → Local → Prop) : Prop where
  serves : ∀ {state request answer next}, Inv state → Allowed request →
    object state request = some (answer, next) → Replied request answer ∧ Inv next
  goesOn : ∀ {thread budget value program}, Keeps thread budget value →
    goOn value = some program → 0 < budget ∧
      program.Meets Allowed Replied (Keeps thread) (budget - 1)
  rests : ∀ {thread budget value}, Keeps thread budget value → goOn value = none →
    Keeps thread (budget - 1) value

structure Holds (Inv : State → Prop) (Allowed : Request → Prop)
    (Replied : (request : Request) → Answer request → Prop)
    (Keeps : Thread → Nat → Local → Prop) (budget : Thread → Nat)
    (crowd : Crowd Thread State Request Answer Local) : Prop where
  shared : Inv crowd.shared
  programs : ∀ thread,
    (crowd.programs thread).Meets Allowed Replied (Keeps thread) (budget thread)

section Rule

variable {object : SharedObject State Request Answer}
  {goOn : Local → Option (Program Request Answer Local)} {Inv : State → Prop}
  {Allowed : Request → Prop} {Replied : (request : Request) → Answer request → Prop}
  {Keeps : Thread → Nat → Local → Prop} {budget : Thread → Nat}
  {crowd next last : Crowd Thread State Request Answer Local} {thread : Thread}

omit [DecidableEq Thread] in
theorem Discipline.finished_of_zero
    (discipline : Discipline object goOn Inv Allowed Replied Keeps)
    (holds : crowd.Holds Inv Allowed Replied Keeps budget) (zero : budget thread = 0) :
    crowd.Finished goOn thread := by
  have meets := holds.programs thread
  rw [zero] at meets
  cases program : crowd.programs thread with
  | call request next =>
      rw [program] at meets
      exact absurd meets.1 (Nat.lt_irrefl 0)
  | done value =>
      rw [program] at meets
      cases behind : goOn value with
      | none => exact ⟨value, program, behind⟩
      | some rest => exact absurd (discipline.goesOn meets behind).1 (Nat.lt_irrefl 0)

theorem Discipline.step (discipline : Discipline object goOn Inv Allowed Replied Keeps)
    (holds : crowd.Holds Inv Allowed Replied Keeps budget)
    (stepped : crowd.step object goOn thread = some next) :
    next.Holds Inv Allowed Replied Keeps
      (Function.update budget thread (budget thread - 1)) := by
  have meets := holds.programs thread
  have others : ∀ {program : Program Request Answer Local},
      program.Meets Allowed Replied (Keeps thread) (budget thread - 1) → ∀ other,
      (Function.update crowd.programs thread program other).Meets Allowed Replied (Keeps other)
        (Function.update budget thread (budget thread - 1) other) := by
    intro program programMeets other
    by_cases same : other = thread
    · subst same
      rw [Function.update_self, Function.update_self]
      exact programMeets
    · rw [Function.update_of_ne same, Function.update_of_ne same]
      exact holds.programs other
  cases program : crowd.programs thread with
  | done value =>
      rw [program] at meets
      cases behind : goOn value with
      | none =>
          rw [step_rests program behind] at stepped
          cases stepped
          refine ⟨holds.shared, ?_⟩
          have rested := @others (.done value) (discipline.rests meets behind)
          rw [← program, Function.update_eq_self] at rested
          exact rested
      | some rest =>
          rw [step_goesOn program behind] at stepped
          cases stepped
          exact ⟨holds.shared, others (discipline.goesOn meets behind).2⟩
  | call request rest =>
      rw [program] at meets
      rw [step_call program] at stepped
      rcases Option.map_eq_some_iff.mp stepped with ⟨⟨answer, shared⟩, served, rfl⟩
      rcases discipline.serves holds.shared meets.2.1 served with ⟨replied, kept⟩
      exact ⟨kept, others (meets.2.2 answer replied)⟩

/-- Rule for all orders: what every thread keeps holds however the steps of the threads are
mixed, and each step of a thread is paid by its own budget. -/
theorem Discipline.run (discipline : Discipline object goOn Inv Allowed Replied Keeps)
    (holds : crowd.Holds Inv Allowed Replied Keeps budget) {schedule : List Thread}
    (ran : crowd.run object goOn schedule = some last) :
    last.Holds Inv Allowed Replied Keeps
      fun thread => budget thread - schedule.count thread := by
  induction schedule generalizing crowd budget with
  | nil =>
      cases ran
      exact holds
  | cons first schedule induction =>
      rw [Crowd.run, Option.bind_eq_some_iff] at ran
      rcases ran with ⟨next, stepped, ran⟩
      have kept := induction (discipline.step holds stepped) ran
      have same : (fun thread => Function.update budget first (budget first - 1) thread -
          schedule.count thread) =
          fun thread => budget thread - (first :: schedule).count thread := by
        funext thread
        by_cases isFirst : thread = first
        · subst isFirst
          rw [Function.update_self, List.count_cons_self]
          omega
        · rw [Function.update_of_ne isFirst, List.count_cons_of_ne (Ne.symm isFirst)]
      rw [same] at kept
      exact kept

/-- A thread that has taken as many steps as its budget allows is finished, whatever the other
threads do. -/
theorem Discipline.finishes (discipline : Discipline object goOn Inv Allowed Replied Keeps)
    (holds : crowd.Holds Inv Allowed Replied Keeps budget) {schedule : List Thread}
    (ran : crowd.run object goOn schedule = some last)
    (enough : budget thread ≤ schedule.count thread) : last.Finished goOn thread :=
  discipline.finished_of_zero (discipline.run holds ran) (Nat.sub_eq_zero_of_le enough)

end Rule

/-! ## What the threads use -/

/-- What makes the rule for orders that spare what is used: a request is served as long as what
it uses is usable, what is given is usable, and what a request does not drop stays so. -/
structure Handover (object : SharedObject State Request Answer)
    (goOn : Local → Option (Program Request Answer Local)) {Obj : Type z} (Inv : State → Prop)
    (usable : State → Obj → Prop) (drops : State → Request → Obj → Prop)
    (uses : Request → Option Obj)
    (gives : (request : Request) → Answer request → Option Obj) : Prop where
  serves : ∀ {state request}, Inv state → (∀ obj, uses request = some obj → usable state obj) →
    ∃ answer next, object state request = some (answer, next) ∧ Inv next ∧
      (∀ obj, gives request answer = some obj → usable next obj) ∧
      ∀ obj, usable state obj → ¬ drops state request obj → usable next obj
  goesOn : ∀ {value program}, goOn value = some program →
    program.about uses = none ∧ program.Careful uses gives

structure Unharmed {Obj : Type z} (Inv : State → Prop) (usable : State → Obj → Prop)
    (uses : Request → Option Obj) (gives : (request : Request) → Answer request → Option Obj)
    (crowd : Crowd Thread State Request Answer Local) : Prop where
  shared : Inv crowd.shared
  careful : ∀ thread, (crowd.programs thread).Careful uses gives
  usable : ∀ thread obj, (crowd.programs thread).about uses = some obj →
    usable crowd.shared obj

/-- The next step of the thread drops nothing that a thread is about to use. -/
def Spares {Obj : Type z} (drops : State → Request → Obj → Prop) (uses : Request → Option Obj)
    (crowd : Crowd Thread State Request Answer Local) (thread : Thread) : Prop :=
  ∀ request next, crowd.programs thread = .call request next →
    ∀ other obj, (crowd.programs other).about uses = some obj →
      ¬ drops crowd.shared request obj

/-- Every step of the schedule spares what is used. -/
def SparesAlong {Obj : Type z} (object : SharedObject State Request Answer)
    (goOn : Local → Option (Program Request Answer Local))
    (drops : State → Request → Obj → Prop) (uses : Request → Option Obj) :
    Crowd Thread State Request Answer Local → List Thread → Prop
  | _, [] => True
  | crowd, thread :: schedule => crowd.Spares drops uses thread ∧
      ∀ next, crowd.step object goOn thread = some next →
        SparesAlong object goOn drops uses next schedule

section Handover

variable {object : SharedObject State Request Answer}
  {goOn : Local → Option (Program Request Answer Local)} {Obj : Type z} {Inv : State → Prop}
  {usable : State → Obj → Prop} {drops : State → Request → Obj → Prop}
  {uses : Request → Option Obj} {gives : (request : Request) → Answer request → Option Obj}
  {crowd : Crowd Thread State Request Answer Local} {thread : Thread}

omit goOn in
theorem Unharmed.update (unharmed : crowd.Unharmed Inv usable uses gives) {shared : State}
    {program : Program Request Answer Local} (kept : Inv shared)
    (careful : program.Careful uses gives)
    (mine : ∀ obj, program.about uses = some obj → usable shared obj)
    (others : ∀ other obj, (crowd.programs other).about uses = some obj → usable shared obj) :
    Unharmed Inv usable uses gives
      { shared, programs := Function.update crowd.programs thread program } := by
  refine ⟨kept, fun other => ?_, fun other obj => ?_⟩
  · dsimp only
    by_cases same : other = thread
    · subst same
      rw [Function.update_self]
      exact careful
    · rw [Function.update_of_ne same]
      exact unharmed.careful other
  · dsimp only
    by_cases same : other = thread
    · subst same
      rw [Function.update_self]
      exact mine obj
    · rw [Function.update_of_ne same]
      exact others other obj

theorem Handover.step (handover : Handover object goOn Inv usable drops uses gives)
    (unharmed : crowd.Unharmed Inv usable uses gives)
    (spares : crowd.Spares drops uses thread) :
    ∃ next, crowd.step object goOn thread = some next ∧
      next.Unharmed Inv usable uses gives := by
  cases program : crowd.programs thread with
  | done value =>
      cases behind : goOn value with
      | none => exact ⟨crowd, step_rests program behind, unharmed⟩
      | some rest =>
          rcases handover.goesOn behind with ⟨nothing, careful⟩
          refine ⟨_, step_goesOn program behind,
            unharmed.update unharmed.shared careful ?_ unharmed.usable⟩
          intro obj used
          rw [nothing] at used
          cases used
  | call request rest =>
      have mine : ∀ obj, uses request = some obj → usable crowd.shared obj := by
        intro obj used
        apply unharmed.usable thread obj
        rw [program]
        exact used
      have careful := unharmed.careful thread
      rw [program] at careful
      rcases handover.serves unharmed.shared mine with
        ⟨answer, shared, served, kept, given, spared⟩
      refine ⟨{ shared, programs := Function.update crowd.programs thread (rest answer) }, ?_,
        unharmed.update kept (careful answer).2 ?_ ?_⟩
      · rw [step_call program, served]
        rfl
      · exact fun obj used => given obj ((careful answer).1 obj used)
      · exact fun other obj used => spared obj (unharmed.usable other obj used)
          (spares request rest program other obj used)

/-- Rule for orders in which every step spares what is used: all steps are taken. -/
theorem Handover.run (handover : Handover object goOn Inv usable drops uses gives)
    (unharmed : crowd.Unharmed Inv usable uses gives) {schedule : List Thread}
    (spares : crowd.SparesAlong object goOn drops uses schedule) :
    ∃ last, crowd.run object goOn schedule = some last ∧
      last.Unharmed Inv usable uses gives := by
  induction schedule generalizing crowd with
  | nil => exact ⟨crowd, rfl, unharmed⟩
  | cons first schedule induction =>
      rcases handover.step unharmed spares.1 with ⟨next, stepped, nextUnharmed⟩
      rcases induction nextUnharmed (spares.2 next stepped) with ⟨last, ran, lastUnharmed⟩
      refine ⟨last, ?_, lastUnharmed⟩
      rw [Crowd.run, stepped]
      exact ran

theorem sparesAlong_alone (apart : ∀ state request obj, drops state request obj →
      uses request = none)
    (idle : ∀ other, other ≠ thread → (crowd.programs other).about uses = none) (steps : Nat) :
    crowd.SparesAlong object goOn drops uses (List.replicate steps thread) := by
  induction steps generalizing crowd with
  | zero => trivial
  | succ steps induction =>
      refine ⟨?_, fun next stepped => induction fun other different => ?_⟩
      · intro request next program other obj used dropped
        by_cases same : other = thread
        · rw [same, program] at used
          exact absurd ((apart _ _ _ dropped).symm.trans used) (Option.some_ne_none obj).symm
        · rw [idle other same] at used
          cases used
      · rw [step_other stepped different]
        exact idle other different

end Handover

end Crowd

end SquashfsFuse
