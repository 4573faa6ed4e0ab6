import Mathlib.Data.List.Basic

/-! Sequences stored in chunks of one size. -/

namespace SquashfsFuse

variable {α : Type u} {chunks : List (List α)} {chunk rest : List α} {size idx start : Nat}

theorem drop_flatten_append (found : chunks[idx]? = some chunk)
    (uniform : ∀ (other : Nat) (before : List α), other < idx →
      chunks[other]? = some before → before.length = size)
    (inside : start ≤ chunk.length) :
    (chunks.flatten ++ rest).drop (idx * size + start) =
      chunk.drop start ++ ((chunks.drop (idx + 1)).flatten ++ rest) := by
  induction idx generalizing chunks with
  | zero =>
      cases chunks with
      | nil => simp at found
      | cons first others =>
          obtain rfl : first = chunk := by simpa using found
          simp only [Nat.zero_mul, Nat.zero_add, List.flatten_cons, List.append_assoc,
            List.drop_succ_cons, List.drop_zero]
          exact List.drop_append_of_le_length inside
  | succ idx induction =>
      cases chunks with
      | nil => simp at found
      | cons first others =>
          have firstLength : first.length = size := uniform 0 first (Nat.succ_pos idx) rfl
          have position : (idx + 1) * size + start = first.length + (idx * size + start) := by
            rw [firstLength, Nat.succ_mul]
            omega
          rw [List.flatten_cons, List.append_assoc, position, List.drop_append,
            List.drop_eq_nil_of_le (Nat.le_add_right _ _), List.nil_append,
            Nat.add_sub_cancel_left, List.drop_succ_cons]
          apply induction (by simpa using found)
          intro other before smaller present
          exact uniform (other + 1) before (Nat.succ_lt_succ smaller) (by simpa using present)

theorem length_flatten_of_uniform
    (uniform : ∀ (idx : Nat) (chunk : List α), chunks[idx]? = some chunk →
      chunk.length = size) :
    chunks.flatten.length = chunks.length * size := by
  induction chunks with
  | nil => simp
  | cons first others induction =>
      have firstLength : first.length = size := uniform 0 first rfl
      have rest := induction fun idx chunk found => uniform (idx + 1) chunk (by simpa using found)
      rw [List.flatten_cons, List.length_append, firstLength, rest, List.length_cons,
        Nat.succ_mul, Nat.add_comm]

/-! ## Short chunks -/

def fillUp (filler : α) (size : Nat) (chunk : List α) : List α :=
  chunk ++ List.replicate (size - chunk.length) filler

theorem fillUp_length {filler : α} (fits : chunk.length ≤ size) :
    (fillUp filler size chunk).length = size := by
  rw [fillUp, List.length_append, List.length_replicate]
  exact Nat.add_sub_cancel' fits

theorem fillUp_of_length {filler : α} (full : chunk.length = size) :
    fillUp filler size chunk = chunk := by
  rw [fillUp, full, Nat.sub_self, List.replicate_zero, List.append_nil]

/-! ## Positions in chunks -/

section Positions

variable {pos later : Nat}

theorem add_in_block (inBlock : pos % size + idx < size) :
    (pos + idx) / size = pos / size ∧ (pos + idx) % size = pos % size + idx := by
  have position : pos + idx = size * (pos / size) + (pos % size + idx) := by
    rw [← Nat.add_assoc, Nat.div_add_mod]
  rw [position, Nat.mul_add_div (by omega), Nat.mul_add_mod, Nat.div_eq_of_lt inBlock,
    Nat.mod_eq_of_lt inBlock]
  exact ⟨rfl, rfl⟩

theorem add_to_end (positive : 0 < size) :
    pos + (size - pos % size) = size * (pos / size + 1) := by
  have position := Nat.div_add_mod pos size
  have inBlock := Nat.mod_lt pos positive
  rw [Nat.mul_succ]
  omega

theorem end_le_of_other (positive : 0 < size) (order : pos ≤ later)
    (other : pos / size ≠ later / size) : pos + (size - pos % size) ≤ later := by
  have chunks : pos / size + 1 ≤ later / size :=
    Nat.lt_of_le_of_ne (Nat.div_le_div_right order) other
  calc
    pos + (size - pos % size) = size * (pos / size + 1) := add_to_end positive
    _ ≤ size * (later / size) := Nat.mul_le_mul_left size chunks
    _ ≤ later := Nat.mul_div_le later size

end Positions

/-! ## Records one after the other -/

section Records

variable {β : Type v} {encode : β → List α} {items : List β}

theorem length_le_length_flatMap_of_mem {item : β} (member : item ∈ items) :
    (encode item).length ≤ (items.flatMap encode).length := by
  induction member with
  | head others =>
      rw [List.flatMap_cons, List.length_append]
      exact Nat.le_add_right _ _
  | tail other _ induction =>
      rw [List.flatMap_cons, List.length_append]
      exact Nat.le_trans induction (Nat.le_add_left _ _)

theorem length_le_length_flatMap (positive : ∀ item ∈ items, 0 < (encode item).length) :
    items.length ≤ (items.flatMap encode).length := by
  induction items with
  | nil => exact Nat.le_refl _
  | cons item items induction =>
      have first := positive item List.mem_cons_self
      have others := induction fun other member => positive other (List.mem_cons_of_mem _ member)
      rw [List.flatMap_cons, List.length_append, List.length_cons]
      omega

theorem map_pmap_eq {γ : Type w} {δ : Type x} {valid : β → Prop} {build : ∀ item, valid item → γ}
    {read : γ → δ} {direct : β → δ} (same : ∀ item holds, read (build item holds) = direct item)
    (all : ∀ item ∈ items, valid item) : (items.pmap build all).map read = items.map direct := by
  rw [List.map_pmap, ← List.pmap_eq_map all]
  exact List.pmap_congr_left items fun item _ holds _ => same item holds

def PrefixFree (encode : β → List α) : Prop :=
  ∀ left right rest after, encode left ++ rest = encode right ++ after →
    left = right ∧ rest = after

theorem PrefixFree.flatMap_append (free : PrefixFree encode) {left right : List β}
    {after : List α} (lengths : left.length = right.length)
    (same : left.flatMap encode ++ rest = right.flatMap encode ++ after) :
    left = right ∧ rest = after := by
  induction left generalizing right with
  | nil =>
      obtain rfl : right = [] := List.length_eq_zero_iff.mp lengths.symm
      exact ⟨rfl, same⟩
  | cons item left induction =>
      cases right with
      | nil => cases lengths
      | cons other right =>
          rw [List.flatMap_cons, List.flatMap_cons, List.append_assoc, List.append_assoc] at same
          rcases free _ _ _ _ same with ⟨rfl, others⟩
          rcases induction (Nat.succ.inj lengths) others with ⟨rfl, behind⟩
          exact ⟨rfl, behind⟩

theorem PrefixFree.flatMap_injective (free : PrefixFree encode)
    (positive : ∀ item, 0 < (encode item).length) {left right : List β}
    (same : left.flatMap encode = right.flatMap encode) : left = right := by
  have nonempty (item : β) (items : List β) : (item :: items).flatMap encode ≠ [] := by
    intro empty
    have length := congrArg List.length empty
    rw [List.flatMap_cons, List.length_append, List.length_nil] at length
    have room := positive item
    omega
  induction left generalizing right with
  | nil =>
      cases right with
      | nil => rfl
      | cons other right => exact absurd same.symm (nonempty other right)
  | cons item left induction =>
      cases right with
      | nil => exact absurd same (nonempty item left)
      | cons other right =>
          rw [List.flatMap_cons, List.flatMap_cons] at same
          rcases free _ _ _ _ same with ⟨rfl, others⟩
          rw [induction others]

end Records

end SquashfsFuse
