import Mathlib.Tactic.Basic

/-! Loops given by their body, and rules for what their runs do. -/

namespace SquashfsFuse

/-- One pass through a loop body: the loop is left with a result, or entered
again from a new state. -/
inductive Pass (σ : Type u) (ρ : Type v)
  | leave (result : ρ)
  | again (state : σ)

namespace Pass

/-- Run the loop for at most `fuel` passes. -/
def iterate (body : σ → Pass σ ρ) : Nat → σ → Option ρ
  | 0, _ => none
  | fuel + 1, state =>
      match body state with
      | .leave result => some result
      | .again next => iterate body fuel next

/-- The loop entered at `state` is left, with `result`. -/
def Returns (body : σ → Pass σ ρ) (state : σ) (result : ρ) : Prop :=
  ∃ fuel, iterate body fuel state = some result

/-- The loop entered at `state` is left. -/
def Terminates (body : σ → Pass σ ρ) (state : σ) : Prop :=
  ∃ result, Returns body state result

/-- The states at which the loop body is entered in the run from a state. -/
inductive Enters (body : σ → Pass σ ρ) : σ → σ → Prop
  | start (state) : Enters body state state
  | again {first next last} :
      body first = .again next → Enters body next last → Enters body first last

/-- The loop entered at the first state comes to the last one by the given number of
repeated passes. -/
inductive Repeats (body : σ → Pass σ ρ) : Nat → σ → σ → Prop
  | start (state) : Repeats body 0 state state
  | again {count first next last} :
      body first = .again next → Repeats body count next last →
        Repeats body (count + 1) first last

variable {body : σ → Pass σ ρ} {state next : σ} {result other : ρ}

theorem iterate_leave (fuel : Nat) (left : body state = .leave result) :
    iterate body (fuel + 1) state = some result := by
  simp [iterate, left]

theorem iterate_again (fuel : Nat) (repeated : body state = .again next) :
    iterate body (fuel + 1) state = iterate body fuel next := by
  simp [iterate, repeated]

/-- More fuel does not change a result. -/
theorem iterate_mono {fuel more : Nat} (enough : fuel ≤ more)
    (returned : iterate body fuel state = some result) :
    iterate body more state = some result := by
  induction fuel generalizing state more with
  | zero => simp [iterate] at returned
  | succ fuel induction =>
      obtain ⟨more, rfl⟩ : ∃ smaller, more = smaller + 1 := ⟨more - 1, by omega⟩
      cases pass : body state with
      | leave early =>
          rw [iterate_leave fuel pass] at returned
          rw [iterate_leave more pass, returned]
      | again next =>
          rw [iterate_again fuel pass] at returned
          rw [iterate_again more pass]
          exact induction (by omega) returned

theorem Returns.unique (returned : Returns body state result)
    (alternative : Returns body state other) : result = other := by
  rcases returned with ⟨fuel, run⟩
  rcases alternative with ⟨otherFuel, otherRun⟩
  have first := iterate_mono (Nat.le_max_left fuel otherFuel) run
  have second := iterate_mono (Nat.le_max_right fuel otherFuel) otherRun
  exact Option.some.inj (first.symm.trans second)

theorem Returns.of_leave (left : body state = .leave result) :
    Returns body state result :=
  ⟨1, iterate_leave 0 left⟩

theorem Returns.of_again (repeated : body state = .again next)
    (returned : Returns body next result) : Returns body state result := by
  rcases returned with ⟨fuel, run⟩
  exact ⟨fuel + 1, by rw [iterate_again fuel repeated, run]⟩

theorem Returns.cases (returned : Returns body state result) :
    body state = .leave result ∨
      ∃ next, body state = .again next ∧ Returns body next result := by
  rcases returned with ⟨fuel, run⟩
  cases fuel with
  | zero => simp [iterate] at run
  | succ fuel =>
      cases pass : body state with
      | leave early =>
          rw [iterate_leave fuel pass] at run
          exact .inl (by rw [Option.some.inj run])
      | again next =>
          rw [iterate_again fuel pass] at run
          exact .inr ⟨next, rfl, fuel, run⟩

theorem Enters.trans {first middle last : σ} (front : Enters body first middle)
    (back : Enters body middle last) : Enters body first last := by
  induction front with
  | start => exact back
  | again repeated _ induction => exact .again repeated (induction back)

theorem Enters.returns {first last : σ} (entered : Enters body first last)
    (returned : Returns body last result) : Returns body first result := by
  induction entered with
  | start => exact returned
  | again repeated _ induction => exact .of_again repeated (induction returned)

theorem Returns.leaves (returned : Returns body state result) :
    ∃ last, Enters body state last ∧ body last = .leave result := by
  rcases returned with ⟨fuel, run⟩
  induction fuel generalizing state with
  | zero => simp [iterate] at run
  | succ fuel induction =>
      cases pass : body state with
      | leave early =>
          rw [iterate_leave fuel pass] at run
          exact ⟨state, .start state, by rw [pass, Option.some.inj run]⟩
      | again next =>
          rw [iterate_again fuel pass] at run
          rcases induction run with ⟨last, entered, left⟩
          exact ⟨last, .again pass entered, left⟩

theorem enters_of_leave {last : σ} (left : body state = .leave result) :
    Enters body state last ↔ last = state := by
  constructor
  · intro entered
    cases entered with
    | start => rfl
    | again repeated _ =>
        rw [left] at repeated
        cases repeated
  · rintro rfl
    exact .start _

theorem enters_of_again {last : σ} (repeated : body state = .again next) :
    Enters body state last ↔ last = state ∨ Enters body next last := by
  constructor
  · intro entered
    cases entered with
    | start => exact .inl rfl
    | again pass rest =>
        rw [repeated] at pass
        cases pass
        exact .inr rest
  · rintro (rfl | entered)
    · exact .start _
    · exact .again repeated entered

/-- Invariant rule: what one pass preserves holds wherever the body is
entered. -/
theorem Enters.invariant {Inv : σ → Prop} {first last : σ}
    (entered : Enters body first last) (holds : Inv first)
    (preserved : ∀ state next, Inv state → body state = .again next → Inv next) :
    Inv last := by
  induction entered with
  | start => exact holds
  | again repeated _ induction => exact induction (preserved _ _ holds repeated)

/-- Partial-correctness rule: an invariant that every pass preserves, and that
gives the postcondition where the loop is left. -/
theorem Returns.invariant {Inv : σ → Prop} {Post : ρ → Prop}
    (returned : Returns body state result) (holds : Inv state)
    (preserved : ∀ state next, Inv state → body state = .again next → Inv next)
    (exit : ∀ state result, Inv state → body state = .leave result → Post result) :
    Post result := by
  rcases returned with ⟨fuel, run⟩
  induction fuel generalizing state with
  | zero => simp [iterate] at run
  | succ fuel induction =>
      cases pass : body state with
      | leave early =>
          rw [iterate_leave fuel pass] at run
          exact Option.some.inj run ▸ exit state early holds pass
      | again next =>
          rw [iterate_again fuel pass] at run
          exact induction (preserved state next holds pass) run

/-- Variant rule: a natural number that decreases with every pass bounds the
number of passes. -/
theorem Terminates.of_variant (variant : σ → Nat) (Inv : σ → Prop) (holds : Inv state)
    (preserved : ∀ state next, Inv state → body state = .again next →
      Inv next ∧ variant next < variant state) :
    Terminates body state := by
  induction bound : variant state using Nat.strongRecOn generalizing state with
  | _ size induction =>
      cases pass : body state with
      | leave result => exact ⟨result, .of_leave pass⟩
      | again next =>
          rcases preserved state next holds pass with ⟨nextHolds, decreased⟩
          rcases induction (variant next) (bound ▸ decreased) nextHolds rfl with
            ⟨result, returned⟩
          exact ⟨result, .of_again pass returned⟩

/-- Fuel rule: a natural number that decreases with every pass is fuel enough. -/
theorem iterate_isSome_of_variant (variant : σ → Nat)
    (decreases : ∀ state next, body state = .again next → variant next < variant state)
    {fuel : Nat} (enough : variant state < fuel) : (iterate body fuel state).isSome := by
  induction fuel generalizing state with
  | zero => contradiction
  | succ fuel induction =>
      cases pass : body state with
      | leave result => rw [iterate_leave fuel pass, Option.isSome_some]
      | again next =>
          have decreased := decreases state next pass
          rw [iterate_again fuel pass]
          exact induction (by omega)

/-- Divergence rule: a loop that never leaves a set of states in which every
pass is repeated does not terminate. -/
theorem not_terminates_of_invariant (Stuck : σ → Prop) (stuck : Stuck state)
    (repeats : ∀ state, Stuck state → ∃ next, body state = .again next ∧ Stuck next) :
    ¬ Terminates body state := by
  rintro ⟨result, fuel, run⟩
  induction fuel generalizing state with
  | zero => simp [iterate] at run
  | succ fuel induction =>
      rcases repeats state stuck with ⟨next, pass, nextStuck⟩
      rw [iterate_again fuel pass] at run
      exact induction nextStuck run

theorem Terminates.of_enters {first last : σ} (terminates : Terminates body first)
    (entered : Enters body first last) : Terminates body last := by
  induction entered with
  | start => exact terminates
  | again repeated _ induction =>
      apply induction
      rcases terminates with ⟨result, returned⟩
      rcases returned.cases with left | ⟨next, pass, rest⟩
      · rw [repeated] at left
        cases left
      · rw [repeated] at pass
        cases pass
        exact ⟨result, rest⟩

/-! ## Numbers of passes -/

theorem Terminates.of_isSome {fuel : Nat} (enough : (iterate body fuel state).isSome) :
    Terminates body state := by
  rcases Option.isSome_iff_exists.mp enough with ⟨result, run⟩
  exact ⟨result, fuel, run⟩

/-- Counting rule: a loop that reads at a position inside a limit in every pass, and moves on
by a step unless it is satisfied, repeats no more passes than fit. -/
theorem Repeats.bounded {position : σ → Nat} {satisfied : σ → Prop} {step limit count : Nat}
    {first last : σ} (repeats : Repeats body count first last)
    (reads : ∀ state next, body state = .again next → position state + step ≤ limit)
    (moves : ∀ state next, body state = .again next →
      satisfied next ∨ position state + step ≤ position next)
    (stops : ∀ state next, satisfied state → body state ≠ .again next) :
    count = 0 ∨ position first + step * count ≤ limit := by
  induction repeats with
  | start state => exact .inl rfl
  | @again count first next last repeated rest induction =>
      right
      cases rest with
      | start =>
          rw [Nat.zero_add, Nat.mul_one]
          exact reads first next repeated
      | @again fewer _ after _ repeatedNext _ =>
          rcases moves first next repeated with done | moved
          · exact absurd repeatedNext (stops next after done)
          · rcases induction with zero | bound
            · cases zero
            · rw [Nat.mul_succ]
              omega

/-! ## Loops in lock step -/

/-- A pass with another state and another result. -/
def map (state : σ → σ') (result : ρ → ρ') : Pass σ ρ → Pass σ' ρ'
  | .leave value => .leave (result value)
  | .again next => .again (state next)

theorem iterate_map {body' : σ' → Pass σ' ρ'} {onState : σ → σ'} {onResult : ρ → ρ'}
    (commutes : ∀ state, body' (onState state) = (body state).map onState onResult)
    (fuel : Nat) (state : σ) :
    iterate body' fuel (onState state) = (iterate body fuel state).map onResult := by
  induction fuel generalizing state with
  | zero => rfl
  | succ fuel induction =>
      cases pass : body state with
      | leave result =>
          have pass' := commutes state
          rw [pass] at pass'
          rw [iterate_leave fuel pass, iterate_leave fuel pass', Option.map_some]
      | again next =>
          have pass' := commutes state
          rw [pass] at pass'
          rw [iterate_again fuel pass, iterate_again fuel pass', induction]

/-- Two passes do the same: both leave their loops with results in agreement,
or both repeat them from related states. -/
def Matches (related : σ → σ' → Prop) (agree : ρ → ρ' → Prop) :
    Pass σ ρ → Pass σ' ρ' → Prop
  | .leave result, .leave result' => agree result result'
  | .again next, .again next' => related next next'
  | _, _ => False

section Simulation

variable {body' : σ' → Pass σ' ρ'} {state' : σ'} {result' : ρ'}
  {related : σ → σ' → Prop} {agree : ρ → ρ' → Prop}

/-- Simulation rule: while the passes from related states match, a result of
the first loop has a counterpart in the second. -/
theorem Returns.simulate (returned : Returns body state result)
    (start : related state state')
    (step : ∀ state state', related state state' →
      Matches related agree (body state) (body' state')) :
    ∃ result', Returns body' state' result' ∧ agree result result' := by
  rcases returned with ⟨fuel, run⟩
  induction fuel generalizing state state' with
  | zero => simp [iterate] at run
  | succ fuel induction =>
      have matched := step state state' start
      cases pass : body state with
      | leave early =>
          rw [iterate_leave fuel pass] at run
          cases run
          cases pass' : body' state' with
          | leave result' =>
              rw [pass, pass'] at matched
              exact ⟨result', .of_leave pass', matched⟩
          | again next' =>
              rw [pass, pass'] at matched
              contradiction
      | again next =>
          rw [iterate_again fuel pass] at run
          cases pass' : body' state' with
          | leave result' =>
              rw [pass, pass'] at matched
              contradiction
          | again next' =>
              rw [pass, pass'] at matched
              rcases induction matched run with ⟨result', returned', agreed⟩
              exact ⟨result', .of_again pass' returned', agreed⟩

theorem Matches.flip {pass : Pass σ ρ} {pass' : Pass σ' ρ'}
    (matched : Matches related agree pass pass') :
    Matches (fun state' state => related state state')
      (fun result' result => agree result result') pass' pass := by
  cases pass <;> cases pass' <;> exact matched

/-- The simulation rule in the other direction. -/
theorem Returns.simulate_back (returned : Returns body' state' result')
    (start : related state state')
    (step : ∀ state state', related state state' →
      Matches related agree (body state) (body' state')) :
    ∃ result, Returns body state result ∧ agree result result' :=
  @Returns.simulate _ _ _ _ body' state' result' body state
    (fun state' state => related state state') (fun result' result => agree result result')
    returned start fun _ _ rel => (step _ _ rel).flip

end Simulation

end Pass

end SquashfsFuse
