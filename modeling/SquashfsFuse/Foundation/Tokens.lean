import Mathlib.Data.List.TakeWhile

/-! Texts as sequences of tokens between delimiters. -/

namespace SquashfsFuse

variable {α : Type u} [BEq α]

def tokens (delimiter : α) (text : List α) : List (List α) :=
  (text.splitOn delimiter).filter fun part => !part.isEmpty

/-- The first token of a text and the text behind the delimiter that ends it, as
`strtok_r` finds them with one delimiter. -/
def nextToken (delimiter : α) (text : List α) : Option (List α × List α) :=
  match text.dropWhile (· == delimiter) with
  | [] => none
  | first :: others => some ((first :: others).takeWhile (· != delimiter),
      ((first :: others).dropWhile (· != delimiter)).drop 1)

example : nextToken 0 [0, 0, 1, 2, 0, 3] = some ([1, 2], [3]) := by decide

/-! ## Tokens -/

@[simp] theorem tokens_nil (delimiter : α) : tokens delimiter [] = [] := by
  simp [tokens]

variable [LawfulBEq α] {delimiter : α}

theorem tokens_append_cons (left right : List α) :
    tokens delimiter (left ++ delimiter :: right) =
      tokens delimiter left ++ tokens delimiter right := by
  rw [tokens, List.splitOn_append_cons_self, List.filter_append]
  rfl

@[simp] theorem tokens_cons_delimiter (text : List α) :
    tokens delimiter (delimiter :: text) = tokens delimiter text := by
  simpa using @tokens_append_cons _ _ _ delimiter [] text

theorem tokens_of_notMem {text : List α} (nonempty : text ≠ []) (whole : delimiter ∉ text) :
    tokens delimiter text = [text] := by
  rw [tokens, List.splitOn_eq_singleton whole, List.filter_cons_of_pos (by simpa using nonempty),
    List.filter_nil]

theorem tokens_dropWhile (text : List α) :
    tokens delimiter (text.dropWhile (· == delimiter)) = tokens delimiter text := by
  induction text with
  | nil => rfl
  | cons head text induction =>
      by_cases same : head = delimiter
      · rw [List.dropWhile_cons_of_pos (by simpa using same), induction, same,
          tokens_cons_delimiter]
      · rw [List.dropWhile_cons_of_neg (by simpa using same)]

/-! ## Taking tokens off a text -/

theorem tokens_of_nextToken_none {text : List α} (done : nextToken delimiter text = none) :
    tokens delimiter text = [] := by
  unfold nextToken at done
  split at done
  · next empty => rw [← tokens_dropWhile, empty, tokens_nil]
  · cases done

theorem tokens_of_nextToken_some {text token rest : List α}
    (found : nextToken delimiter text = some (token, rest)) :
    tokens delimiter text = token :: tokens delimiter rest ∧ rest.length < text.length := by
  unfold nextToken at found
  split at found
  · cases found
  · next first others start =>
      have shorter : (first :: others).length ≤ text.length := by
        rw [← start]
        exact (List.dropWhile_suffix _).length_le
      have head := List.head?_dropWhile_not (· == delimiter) text
      rw [start] at head
      have different : (first != delimiter) = true := by simpa using head
      have parts := @List.takeWhile_append_dropWhile α (· != delimiter) (first :: others)
      have nonempty : (first :: others).takeWhile (· != delimiter) ≠ [] := by
        rw [List.takeWhile_cons, different]
        exact List.cons_ne_nil _ _
      have whole : delimiter ∉ (first :: others).takeWhile (· != delimiter) := by
        intro member
        have marked := List.mem_takeWhile_imp member
        simp at marked
      rw [← tokens_dropWhile, start]
      simp only [Option.some.injEq, Prod.mk.injEq] at found
      obtain ⟨rfl, rfl⟩ := found
      cases tail : (first :: others).dropWhile (· != delimiter) with
      | nil =>
          rw [tail, List.append_nil] at parts
          rw [parts] at nonempty whole ⊢
          rw [tokens_of_notMem nonempty whole, List.drop_nil, tokens_nil]
          refine ⟨rfl, ?_⟩
          rw [List.length_cons] at shorter
          exact Nat.lt_of_lt_of_le (Nat.succ_pos _) shorter
      | cons last rest =>
          have ends := List.head?_dropWhile_not (· != delimiter) (first :: others)
          rw [tail] at ends
          obtain rfl : last = delimiter := by simpa using ends
          rw [tail] at parts
          have lengths := congrArg List.length parts
          rw [List.length_append, List.length_cons] at lengths
          refine ⟨?_, by rw [List.drop_one, List.tail_cons]; omega⟩
          rw [← parts, tokens_append_cons, parts, tokens_of_notMem nonempty whole]
          rfl

end SquashfsFuse
