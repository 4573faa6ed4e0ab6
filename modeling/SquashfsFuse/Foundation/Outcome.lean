import Mathlib.Tactic.Basic

/-! Outcomes of C functions that report failure through an error code. -/

namespace SquashfsFuse

/-- What a call of a C function ends in. `ok` is the success path together
with everything the function wrote through its output parameters, `err` is an
error code returned to the caller, and `fault` is an execution the language
gives no meaning to: an access outside the object it was aimed at, a
dereference of a null or dangling pointer. -/
inductive Outcome (ε : Type u) (α : Type v)
  | ok (value : α)
  | err (code : ε)
  | fault
  deriving Repr, DecidableEq

namespace Outcome

/-- Sequencing propagates error codes unchanged, which is what the recurring
`if (ret != SQFS_OK) return ret;` of the source does. -/
def bind (first : Outcome ε α) (rest : α → Outcome ε β) : Outcome ε β :=
  match first with
  | .ok value => rest value
  | .err code => .err code
  | .fault => .fault

instance : Monad (Outcome ε) where
  pure := .ok
  bind := bind

@[simp] theorem pure_eq (value : α) :
    (pure value : Outcome ε α) = .ok value := rfl

@[simp] theorem ok_bind (value : α) (rest : α → Outcome ε β) :
    ((.ok value : Outcome ε α) >>= rest) = rest value := rfl

@[simp] theorem err_bind (code : ε) (rest : α → Outcome ε β) :
    ((.err code : Outcome ε α) >>= rest) = .err code := rfl

@[simp] theorem fault_bind (rest : α → Outcome ε β) :
    ((.fault : Outcome ε α) >>= rest) = .fault := rfl

instance : LawfulMonad (Outcome ε) := LawfulMonad.mk' _
  (fun outcome => by cases outcome <;> rfl)
  (fun _ _ => rfl)
  (fun outcome _ _ => by cases outcome <;> rfl)

theorem bind_eq_ok {first : Outcome ε α} {rest : α → Outcome ε β} {result : β} :
    (first >>= rest) = .ok result ↔
      ∃ value, first = .ok value ∧ rest value = .ok result := by
  cases first <;> simp

theorem bind_pure_eq_err {outcome : Outcome ε α} {result : α → β} {code : ε} :
    (outcome >>= fun value => pure (result value)) = .err code ↔ outcome = .err code := by
  cases outcome <;> simp

theorem mapM_eq_ok {list : List α} {call : α → Outcome ε β} {value : α → β}
    (succeeds : ∀ item ∈ list, call item = .ok (value item)) :
    list.mapM call = .ok (list.map value) := by
  induction list with
  | nil => rfl
  | cons item rest induction =>
      have tail := induction fun other member => succeeds other (List.mem_cons_of_mem _ member)
      rw [List.mapM_cons, succeeds item List.mem_cons_self, tail]
      rfl

theorem length_of_mapM_eq_ok {list : List α} {call : α → Outcome ε β} {results : List β}
    (succeeds : list.mapM call = .ok results) : results.length = list.length := by
  induction list generalizing results with
  | nil =>
      cases succeeds
      rfl
  | cons item rest induction =>
      rw [List.mapM_cons] at succeeds
      rcases bind_eq_ok.mp succeeds with ⟨result, -, succeeds⟩
      rcases bind_eq_ok.mp succeeds with ⟨others, tail, equal⟩
      cases equal
      rw [List.length_cons, List.length_cons, induction tail]

theorem mapM_congr {list : List α} {left right : α → Outcome ε β}
    (agree : ∀ item ∈ list, left item = right item) : list.mapM left = list.mapM right := by
  induction list with
  | nil => rfl
  | cons item rest induction =>
      have tail := induction fun other member => agree other (List.mem_cons_of_mem _ member)
      rw [List.mapM_cons, List.mapM_cons, agree item List.mem_cons_self, tail]

theorem mapM_eq_fault {list : List α} {call : α → Outcome ε β}
    (total : ∀ item ∈ list, ∀ code, call item ≠ .err code)
    (faults : ∃ item ∈ list, call item = .fault) : list.mapM call = .fault := by
  induction list with
  | nil =>
      rcases faults with ⟨item, member, -⟩
      cases member
  | cons item rest induction =>
      rw [List.mapM_cons]
      cases first : call item with
      | fault => rfl
      | err code => exact absurd first (total item List.mem_cons_self code)
      | ok value =>
          rcases faults with ⟨other, member, faulty⟩
          have behind : other ∈ rest := by
            rcases List.mem_cons.mp member with rfl | behind
            · rw [first] at faulty
              cases faulty
            · exact behind
          rw [ok_bind, induction (fun item member => total item (List.mem_cons_of_mem _ member))
            ⟨other, behind, faulty⟩, fault_bind]

def mapErr (translate : ε → ε') : Outcome ε α → Outcome ε' α
  | .ok value => .ok value
  | .err code => .err (translate code)
  | .fault => .fault

@[simp] theorem mapErr_ok (translate : ε → ε') (value : α) :
    (Outcome.ok value : Outcome ε α).mapErr translate = .ok value := rfl

@[simp] theorem mapErr_err (translate : ε → ε') (code : ε) :
    (Outcome.err code : Outcome ε α).mapErr translate = .err (translate code) := rfl

@[simp] theorem mapErr_fault (translate : ε → ε') :
    (Outcome.fault : Outcome ε α).mapErr translate = .fault := rfl

theorem mapErr_eq_ok {translate : ε → ε'} {outcome : Outcome ε α} {value : α} :
    outcome.mapErr translate = .ok value ↔ outcome = .ok value := by
  cases outcome <;> simp [mapErr]

def toOption : Outcome ε α → Option α
  | .ok value => some value
  | .err _ => none
  | .fault => none

@[simp] theorem toOption_ok (value : α) :
    (Outcome.ok value : Outcome ε α).toOption = some value := rfl

@[simp] theorem toOption_err (code : ε) :
    (Outcome.err code : Outcome ε α).toOption = none := rfl

@[simp] theorem toOption_fault : (Outcome.fault : Outcome ε α).toOption = none := rfl

theorem eq_ok_getD {outcome : Outcome ε α} {default : α}
    (succeeds : outcome.toOption.isSome = true) :
    outcome = .ok (outcome.toOption.getD default) := by
  cases outcome with
  | ok value => rfl
  | err code => cases succeeds
  | fault => cases succeeds

def ofOption : Option α → Outcome ε α
  | some value => .ok value
  | none => .fault

@[simp] theorem ofOption_some (value : α) :
    (ofOption (some value) : Outcome ε α) = .ok value := rfl

@[simp] theorem ofOption_none : (ofOption none : Outcome ε α) = .fault := rfl

theorem ofOption_eq_ok {option : Option α} {value : α} :
    (ofOption option : Outcome ε α) = .ok value ↔ option = some value := by
  cases option <;> simp [ofOption]

/-! ## Postconditions -/

def Ensures (outcome : Outcome ε α) (post : α → Prop) : Prop :=
  ∀ value, outcome = .ok value → post value

section Ensures

variable {post : α → Prop}

@[simp] theorem ensures_ok (value : α) :
    (Outcome.ok value : Outcome ε α).Ensures post ↔ post value := by
  simp [Ensures]

@[simp] theorem ensures_err (code : ε) : (Outcome.err code : Outcome ε α).Ensures post :=
  fun _ equal => nomatch equal

@[simp] theorem ensures_fault : (Outcome.fault : Outcome ε α).Ensures post :=
  fun _ equal => nomatch equal

@[simp] theorem ensures_true {outcome : Outcome ε α} : outcome.Ensures fun _ => True :=
  fun _ _ => trivial

@[simp] theorem ensures_bind {first : Outcome ε α} {rest : α → Outcome ε β} {post : β → Prop} :
    (first >>= rest).Ensures post ↔ first.Ensures fun value => (rest value).Ensures post := by
  cases first <;> simp

end Ensures

/-! ## Codes that do not occur -/

def Avoids (outcome : Outcome ε α) (code : ε) : Prop := outcome ≠ .err code

section Avoids

variable {code : ε}

@[simp] theorem avoids_ok (value : α) : (Outcome.ok value : Outcome ε α).Avoids code :=
  fun equal => nomatch equal

@[simp] theorem avoids_fault : (Outcome.fault : Outcome ε α).Avoids code :=
  fun equal => nomatch equal

@[simp] theorem avoids_err (other : ε) :
    (Outcome.err other : Outcome ε α).Avoids code ↔ other ≠ code := by
  simp [Avoids]

@[simp] theorem avoids_ofOption (option : Option α) :
    (ofOption option : Outcome ε α).Avoids code := by
  cases option <;> simp [ofOption]

@[simp] theorem avoids_bind {first : Outcome ε α} {rest : α → Outcome ε β} :
    (first >>= rest).Avoids code ↔
      first.Avoids code ∧ ∀ value, first = .ok value → (rest value).Avoids code := by
  cases first <;> simp

theorem avoids_mapErr {translate : ε' → ε} {outcome : Outcome ε' α}
    (avoided : ∀ other, outcome = .err other → translate other ≠ code) :
    (outcome.mapErr translate).Avoids code := by
  cases outcome with
  | ok value => exact avoids_ok value
  | err other => exact (avoids_err _).mpr (avoided other rfl)
  | fault => exact avoids_fault

theorem avoids_mapM {list : List α} {call : α → Outcome ε β}
    (avoided : ∀ item, (call item).Avoids code) : (list.mapM call).Avoids code := by
  induction list with
  | nil => exact avoids_ok _
  | cons item rest induction => simp [List.mapM_cons, avoided, induction]

end Avoids

/-! ## Calls with a meaning -/

def Defined (outcome : Outcome ε α) : Prop := outcome ≠ .fault

section Defined

@[simp] theorem defined_ok (value : α) : (Outcome.ok value : Outcome ε α).Defined :=
  fun equal => nomatch equal

@[simp] theorem defined_err (code : ε) : (Outcome.err code : Outcome ε α).Defined :=
  fun equal => nomatch equal

@[simp] theorem not_defined_fault : ¬ (Outcome.fault : Outcome ε α).Defined :=
  fun defined => defined rfl

@[simp] theorem defined_ofOption {option : Option α} :
    (ofOption option : Outcome ε α).Defined ↔ option.isSome = true := by
  cases option <;> simp [ofOption]

@[simp] theorem defined_bind {first : Outcome ε α} {rest : α → Outcome ε β} :
    (first >>= rest).Defined ↔
      first.Defined ∧ ∀ value, first = .ok value → (rest value).Defined := by
  cases first <;> simp

@[simp] theorem defined_mapErr {translate : ε → ε'} {outcome : Outcome ε α} :
    (outcome.mapErr translate).Defined ↔ outcome.Defined := by
  cases outcome <;> simp

theorem defined_mapM {list : List α} {call : α → Outcome ε β}
    (defined : ∀ item ∈ list, (call item).Defined) : (list.mapM call).Defined := by
  induction list with
  | nil => exact defined_ok _
  | cons item rest induction =>
      have tail := induction fun other member => defined other (List.mem_cons_of_mem _ member)
      simp [List.mapM_cons, defined item List.mem_cons_self, tail]

theorem Defined.cases {outcome : Outcome ε α} (defined : outcome.Defined) :
    (∃ value, outcome = .ok value) ∨ ∃ code, outcome = .err code := by
  cases outcome with
  | ok value => exact .inl ⟨value, rfl⟩
  | err code => exact .inr ⟨code, rfl⟩
  | fault => exact absurd rfl defined

end Defined

end Outcome

end SquashfsFuse
