import Mathlib.Data.List.Nodup
import Mathlib.Logic.Function.Basic

/-! Doubly linked lists and chains, seen through the link fields of their
nodes. A link field is a function from the address of a node to the address
the field holds. -/

namespace SquashfsFuse

variable {Address : Type u} [DecidableEq Address]

omit [DecidableEq Address] in
theorem mem_unlinked_iff {before rest : List Address} {entry node : Address}
    (distinct : (before ++ entry :: rest).Nodup) :
    node ∈ before ++ rest ↔ node ∈ before ++ entry :: rest ∧ node ≠ entry := by
  have apart := (List.nodup_cons.mp (List.nodup_middle.mp distinct)).1
  rw [List.perm_middle.mem_iff, List.mem_cons]
  constructor
  · intro member
    apply And.intro (.inr member)
    rintro rfl
    exact apart member
  · rintro ⟨same | member, different⟩
    · exact absurd same different
    · exact member

/-- Assign `value` to the link field of `target`, if there is a target. -/
def setLink (field : Address → Option Address) (target value : Option Address) :
    Address → Option Address :=
  match target with
  | none => field
  | some node => Function.update field node value

theorem setLink_same (field : Address → Option Address) (node : Address)
    (value : Option Address) : setLink field (some node) value node = value := by
  simp [setLink]

theorem setLink_other (field : Address → Option Address) (target value : Option Address)
    (node : Address) (different : target ≠ some node) :
    setLink field target value node = field node := by
  cases target with
  | none => rfl
  | some other =>
      exact Function.update_of_ne (fun equal => different (by rw [equal])) _ _

/-! ## Chains -/

/-- Following `next` from `start` visits exactly `nodes`, in order, and ends in
a null link. -/
def Follows (next : Address → Option Address) : Option Address → List Address → Prop
  | start, [] => start = none
  | start, node :: rest => start = some node ∧ Follows next (next node) rest

namespace Follows

variable {next other : Address → Option Address} {start : Option Address}
  {nodes before after : List Address} {node : Address}

omit [DecidableEq Address] in
theorem congr (follows : Follows next start nodes)
    (agree : ∀ node, node ∈ nodes → other node = next node) :
    Follows other start nodes := by
  induction nodes generalizing start with
  | nil => exact follows
  | cons node rest induction =>
      refine ⟨follows.1, ?_⟩
      rw [agree node List.mem_cons_self]
      exact induction follows.2 fun later member =>
        agree later (List.mem_cons_of_mem node member)

omit [DecidableEq Address] in
theorem unique {chain : List Address} (follows : Follows next start nodes)
    (also : Follows next start chain) : nodes = chain := by
  induction nodes generalizing start chain with
  | nil =>
      cases chain with
      | nil => rfl
      | cons node rest => exact absurd (follows.symm.trans also.1) (by simp)
  | cons node rest induction =>
      cases chain with
      | nil => exact absurd (follows.1.symm.trans also) (by simp)
      | cons other others =>
          obtain rfl : node = other := Option.some.inj (follows.1.symm.trans also.1)
          rw [induction follows.2 also.2]

omit [DecidableEq Address] in
theorem start_eq (follows : Follows next start nodes) : start = nodes.head? := by
  cases nodes with
  | nil => exact follows
  | cons node rest => exact follows.1

omit [DecidableEq Address] in
theorem link (follows : Follows next start (before ++ node :: after)) :
    next node = after.head? := by
  induction before generalizing start with
  | nil => exact follows.2.start_eq
  | cons front before induction => exact induction follows.2

theorem push (follows : Follows next start nodes) (fresh : node ∉ nodes) :
    Follows (Function.update next node start) (some node) (node :: nodes) := by
  refine ⟨rfl, ?_⟩
  rw [Function.update_self]
  apply follows.congr
  intro later member
  apply Function.update_of_ne
  rintro rfl
  exact fresh member

theorem unlink {last : Address}
    (follows : Follows next start (before ++ last :: node :: after))
    (nodup : (before ++ last :: node :: after).Nodup) :
    Follows (Function.update next last (next node)) start (before ++ last :: after) := by
  induction before generalizing start with
  | nil =>
      refine ⟨follows.1, ?_⟩
      rw [Function.update_self]
      apply follows.2.2.congr
      intro later member
      apply Function.update_of_ne
      rintro rfl
      simp [member] at nodup
  | cons front before induction =>
      have parts := List.nodup_cons.mp nodup
      refine ⟨follows.1, ?_⟩
      have frontDifferent : front ≠ last := by
        rintro rfl
        exact parts.1 (by simp)
      rw [Function.update_of_ne frontDifferent]
      exact induction follows.2 parts.2

/-- Removing a node: its predecessor, or the start of the chain if there is
none, takes over its link. -/
theorem remove (follows : Follows next start (before ++ node :: after))
    (nodup : (before ++ node :: after).Nodup) :
    Follows (setLink next before.getLast? (next node))
      (if before = [] then next node else start) (before ++ after) := by
  rcases List.eq_nil_or_concat before with rfl | ⟨front, last, rfl⟩
  · exact follows.2
  · rw [List.concat_eq_append, List.append_assoc, List.singleton_append] at follows nodup ⊢
    rw [List.getLast?_append_cons, if_neg (by simp)]
    exact follows.unlink nodup

end Follows

/-! ## Doubly linked lists -/

/-- `nodes` form a doubly linked list: every node points back to the one before
it and on to the one behind it. -/
structure Linked (prev next : Address → Option Address) (nodes : List Address) : Prop where
  nodup : nodes.Nodup
  links : ∀ before node after, nodes = before ++ node :: after →
    prev node = before.getLast? ∧ next node = after.head?

namespace Linked

variable {prev next otherPrev otherNext : Address → Option Address}
  {nodes before after : List Address} {node : Address}

omit [DecidableEq Address] in
theorem nil (prev next : Address → Option Address) : Linked prev next [] where
  nodup := .nil
  links := by simp

omit [DecidableEq Address] in
theorem congr (linked : Linked prev next nodes)
    (agreePrev : ∀ node, node ∈ nodes → otherPrev node = prev node)
    (agreeNext : ∀ node, node ∈ nodes → otherNext node = next node) :
    Linked otherPrev otherNext nodes where
  nodup := linked.nodup
  links before node after split := by
    have member : node ∈ nodes := by rw [split]; simp
    rw [agreePrev node member, agreeNext node member]
    exact linked.links before node after split

omit [DecidableEq Address] in
theorem follows_next (linked : Linked prev next nodes) :
    Follows next nodes.head? nodes := by
  have suffixFollows : ∀ before after, nodes = before ++ after →
      Follows next after.head? after := by
    intro before after split
    induction after generalizing before with
    | nil => rfl
    | cons node rest induction =>
        refine ⟨rfl, ?_⟩
        rw [(linked.links before node rest split).2]
        exact induction (before ++ [node]) (by simp [split])
  exact suffixFollows [] nodes rfl

omit [DecidableEq Address] in
theorem reverse (linked : Linked prev next nodes) : Linked next prev nodes.reverse where
  nodup := List.nodup_reverse.mpr linked.nodup
  links before node after split := by
    have mirrored : nodes = after.reverse ++ node :: before.reverse := by
      rw [← List.reverse_reverse nodes, split]
      simp
    have fields := linked.links after.reverse node before.reverse mirrored
    rw [List.getLast?_reverse, List.head?_reverse] at fields
    exact fields.symm

omit [DecidableEq Address] in
theorem follows_prev (linked : Linked prev next nodes) :
    Follows prev nodes.getLast? nodes.reverse := by
  rw [← List.head?_reverse]
  exact linked.reverse.follows_next

omit [DecidableEq Address] in
theorem of_follows {start last : Option Address} (nodup : nodes.Nodup)
    (forward : Follows next start nodes) (backward : Follows prev last nodes.reverse) :
    Linked prev next nodes where
  nodup := nodup
  links before node after split := by
    constructor
    · rw [split, List.reverse_append, List.reverse_cons, List.append_assoc] at backward
      exact backward.link.trans List.head?_reverse
    · rw [split] at forward
      exact forward.link

theorem insertHead (linked : Linked prev next nodes) (fresh : node ∉ nodes) :
    Linked (setLink (Function.update prev node none) nodes.head? (some node))
      (Function.update next node nodes.head?) (node :: nodes) where
  nodup := List.nodup_cons.mpr ⟨fresh, linked.nodup⟩
  links before current after split := by
    cases before with
    | nil =>
        simp only [List.nil_append, List.cons.injEq] at split
        rcases split with ⟨rfl, rfl⟩
        have notHead : nodes.head? ≠ some node := fun equal =>
          fresh (List.mem_of_mem_head? equal)
        rw [setLink_other _ _ _ _ notHead]
        simp
    | cons front before =>
        simp only [List.cons_append, List.cons.injEq] at split
        rcases split with ⟨rfl, split⟩
        have fields := linked.links before current after split
        have different : current ≠ node := by
          rintro rfl
          exact fresh (by simp [split])
        refine ⟨?_, by rw [Function.update_of_ne different]; exact fields.2⟩
        cases before with
        | nil =>
            subst split
            exact setLink_same _ _ _
        | cons first before =>
            have notHead : nodes.head? ≠ some current := by
              intro equal
              subst split
              simp only [List.cons_append, List.head?_cons, Option.some.injEq] at equal
              subst equal
              have nodup := linked.nodup
              simp at nodup
            rw [setLink_other _ _ _ _ notHead, Function.update_of_ne different, fields.1]
            simp

/-- Unlinking a node: its neighbours are linked to each other. -/
theorem remove (linked : Linked prev next (before ++ node :: after)) :
    Linked (setLink prev after.head? before.getLast?)
      (setLink next before.getLast? after.head?) (before ++ after) where
  nodup := linked.nodup.sublist
    (List.Sublist.append (List.Sublist.refl before) (List.sublist_cons_self node after))
  links front current rest split := by
    have apart : ∀ other, other ∈ before → other ∉ node :: after := fun other inBefore =>
      List.disjoint_of_nodup_append linked.nodup inBefore
    rcases List.append_eq_append_iff.mp split with
      ⟨inner, frontSplit, afterSplit⟩ | ⟨inner, beforeSplit, restSplit⟩
    · -- `current` stands behind the removed node.
      subst frontSplit afterSplit
      have fields := linked.links (before ++ node :: inner) current rest (by simp)
      have notLast : before.getLast? ≠ some current := by
        intro equal
        exact apart current (List.mem_of_getLast? equal) (by simp)
      rw [setLink_other next _ _ _ notLast]
      refine ⟨?_, fields.2⟩
      cases inner with
      | nil => simpa using setLink_same prev current before.getLast?
      | cons first inner =>
          have notHead : (first :: inner ++ current :: rest).head? ≠ some current := by
            simp only [List.cons_append, List.head?_cons, ne_eq, Option.some.injEq]
            rintro rfl
            have nodup := linked.nodup
            simp [List.nodup_append] at nodup
          rw [setLink_other _ _ _ _ notHead, fields.1]
          simp
    · cases inner with
      | nil =>
          -- `current` is the node just behind the removed one.
          simp only [List.append_nil, List.nil_append] at beforeSplit restSplit
          subst beforeSplit restSplit
          have fields := linked.links (before ++ [node]) current rest (by simp)
          have notLast : before.getLast? ≠ some current := by
            intro equal
            exact apart current (List.mem_of_getLast? equal) (by simp)
          rw [setLink_other next _ _ _ notLast]
          exact ⟨setLink_same prev current before.getLast?, fields.2⟩
      | cons first inner =>
          -- `current` stands before the removed node.
          simp only [List.cons_append, List.cons.injEq] at restSplit
          rcases restSplit with ⟨rfl, rfl⟩
          subst beforeSplit
          have fields := linked.links front current (inner ++ node :: after) (by simp)
          have notHead : after.head? ≠ some current := by
            intro equal
            exact apart current (by simp)
              (List.mem_cons_of_mem node (List.mem_of_mem_head? equal))
          rw [setLink_other prev _ _ _ notHead]
          refine ⟨fields.1, ?_⟩
          cases inner with
          | nil => simpa using setLink_same next current after.head?
          | cons second inner =>
              have notLast : (front ++ current :: second :: inner).getLast? ≠
                  some current := by
                rw [List.getLast?_append_cons, List.getLast?_cons_cons]
                intro equal
                have nodup := (List.nodup_append.mp linked.nodup).1
                have innerNodup := (List.nodup_append.mp nodup).2.1
                exact (List.nodup_cons.mp innerNodup).1 (List.mem_of_getLast? equal)
              rw [setLink_other _ _ _ _ notLast, fields.2]
              simp

end Linked

end SquashfsFuse
