import Mathlib.Data.List.Chain
import SquashfsFuse.Foundation.Bytes
import SquashfsFuse.Foundation.Chunks

/-! Records of one width, stored in pages of one size. -/

namespace SquashfsFuse

/-! ## Records of one width -/

section Records

variable {α : Type u} {β : Type v} {encode : β → List α} {width : Nat} {items : List β}

theorem length_flatMap_of_uniform (uniform : ∀ item, (encode item).length = width) :
    (items.flatMap encode).length = items.length * width := by
  induction items with
  | nil => simp
  | cons item items induction =>
      rw [List.flatMap_cons, List.length_append, uniform, induction, List.length_cons,
        Nat.succ_mul, Nat.add_comm]

theorem splitAt_flatMap_of_uniform (uniform : ∀ item, (encode item).length = width)
    (count : Nat) :
    (items.flatMap encode).take (count * width) = (items.take count).flatMap encode ∧
      (items.flatMap encode).drop (count * width) = (items.drop count).flatMap encode := by
  induction count generalizing items with
  | zero => simp
  | succ count induction =>
      cases items with
      | nil => simp
      | cons item items =>
          have first : (count + 1) * width = (encode item).length + count * width := by
            rw [uniform, Nat.succ_mul, Nat.add_comm]
          rw [List.flatMap_cons, first, List.take_length_add_append,
            List.drop_length_add_append, induction.1, induction.2, List.take_succ_cons,
            List.drop_succ_cons, List.flatMap_cons]
          exact ⟨rfl, rfl⟩

theorem drop_flatMap_of_getElem? (uniform : ∀ item, (encode item).length = width)
    {idx : Nat} {item : β} (found : items[idx]? = some item) :
    (items.flatMap encode).drop (idx * width) =
      encode item ++ (items.drop (idx + 1)).flatMap encode := by
  rcases List.getElem?_eq_some_iff.mp found with ⟨bound, rfl⟩
  rw [(splitAt_flatMap_of_uniform uniform idx).2, List.drop_eq_getElem_cons bound,
    List.flatMap_cons]

theorem flatMap_prefix_of_records (uniform : ∀ item, (encode item).length = width)
    {list : List α}
    (stored : ∀ idx item, items[idx]? = some item → encode item <+: list.drop (idx * width)) :
    items.flatMap encode <+: list := by
  induction items generalizing list with
  | nil => exact List.nil_prefix
  | cons item items induction =>
      have first := stored 0 item rfl
      rw [Nat.zero_mul, List.drop_zero] at first
      rcases first with ⟨rest, rfl⟩
      rw [List.flatMap_cons]
      refine (List.prefix_append_right_inj _).mpr ?_
      apply induction
      intro idx other found
      have behind := stored (idx + 1) other (by simpa using found)
      have place : (idx + 1) * width = (encode item).length + idx * width := by
        rw [uniform, Nat.succ_mul, Nat.add_comm]
      rwa [place, List.drop_length_add_append] at behind

end Records

theorem Outcome.mapM_range_eq_ok {ε : Type u} {β γ : Type v} {call : Nat → Outcome ε γ}
    {value : β → γ} {items : List β} {count : Nat} (bound : count ≤ items.length)
    (delivers : ∀ idx item, idx < count → items[idx]? = some item →
      call idx = .ok (value item)) :
    (List.range count).mapM call = .ok ((items.take count).map value) := by
  induction count with
  | zero => rfl
  | succ count induction =>
      have found : items[count]? = some items[count] := List.getElem?_eq_getElem bound
      have before := induction (Nat.le_of_succ_le bound) fun idx item smaller =>
        delivers idx item (Nat.lt_succ_of_lt smaller)
      have last := delivers count items[count] (Nat.lt_succ_self count) found
      rw [List.range_succ, List.mapM_append, before, List.take_add_one, found,
        List.map_append]
      simp only [List.mapM_cons, List.mapM_nil, last, Outcome.ok_bind]
      rfl

theorem Outcome.call_of_mapM_range {ε : Type u} {β : Type v} {call : Nat → Outcome ε β}
    {count : Nat} {items : List β} (succeeds : (List.range count).mapM call = .ok items) :
    items.length = count ∧ ∀ idx item, items[idx]? = some item → call idx = .ok item := by
  induction count generalizing items with
  | zero =>
      cases succeeds
      simp
  | succ count induction =>
      rw [List.range_succ, List.mapM_append] at succeeds
      rcases Outcome.bind_eq_ok.mp succeeds with ⟨before, earlier, succeeds⟩
      rcases Outcome.bind_eq_ok.mp succeeds with ⟨last, tail, equal⟩
      rw [List.mapM_cons, List.mapM_nil] at tail
      rcases Outcome.bind_eq_ok.mp tail with ⟨item, called, single⟩
      cases single
      cases equal
      rcases induction earlier with ⟨length, delivers⟩
      constructor
      · rw [List.length_append, length, List.length_singleton]
      · intro idx other found
        by_cases here : idx < before.length
        · rw [List.getElem?_append_left here] at found
          exact delivers idx other found
        · have bound := (List.getElem?_eq_some_iff.mp found).1
          rw [List.length_append, List.length_singleton] at bound
          obtain rfl : idx = count := by omega
          rw [List.getElem?_append_right (by omega), length, Nat.sub_self] at found
          cases found
          exact called

/-! ## Pages -/

/-- The pages of a sequence: each takes the next items, as many as there are up to the
size of a page. -/
inductive Paged {α : Type u} (size : Nat) : List (List α) → List α → Prop
  | nil : Paged size [] []
  | cons {pages : List (List α)} {items : List α} (nonempty : items ≠ [])
      (rest : Paged size pages (items.drop size)) :
      Paged size (items.take size :: pages) items

namespace Paged

variable {α : Type u} {size : Nat} {pages : List (List α)} {items page : List α}

theorem flatten (paged : Paged size pages items) : pages.flatten = items := by
  induction paged with
  | nil => rfl
  | cons _ _ induction => rw [List.flatten_cons, induction, List.take_append_drop]

theorem length (paged : Paged size pages items) (positive : 0 < size) :
    pages.length = (items.length + size - 1) / size := by
  induction paged with
  | nil =>
      rw [List.length_nil, List.length_nil, Nat.zero_add]
      exact (Nat.div_eq_of_lt (by omega)).symm
  | @cons pages items nonempty rest induction =>
      have occupied : 0 < items.length := List.length_pos_iff.mpr nonempty
      rw [List.length_cons, induction, List.length_drop]
      by_cases last : items.length ≤ size
      · have one : items.length + size - 1 = items.length - 1 + size := by omega
        rw [Nat.sub_eq_zero_of_le last, Nat.div_eq_of_lt (by omega), one,
          Nat.add_div_right _ positive, Nat.div_eq_of_lt (by omega)]
      · have more : items.length + size - 1 = items.length - size + size - 1 + size := by omega
        rw [more, Nat.add_div_right _ positive]

theorem page_eq (paged : Paged size pages items) {idx : Nat}
    (found : pages[idx]? = some page) : page = (items.drop (idx * size)).take size := by
  induction paged generalizing idx with
  | nil => simp at found
  | cons nonempty rest induction =>
      cases idx with
      | zero =>
          rw [Nat.zero_mul, List.drop_zero]
          exact (Option.some.inj found).symm
      | succ idx =>
          rw [induction (by simpa using found), List.drop_drop, Nat.succ_mul, Nat.add_comm]

theorem exists_page (paged : Paged size pages items) (positive : 0 < size) {idx : Nat}
    (bound : idx < items.length) : ∃ page, pages[idx / size]? = some page := by
  have inside : idx / size < pages.length := by
    rw [paged.length positive]
    apply Nat.lt_of_succ_le
    rw [Nat.succ_eq_add_one, ← Nat.add_div_right _ positive]
    exact Nat.div_le_div_right (by omega)
  exact ⟨pages[idx / size], List.getElem?_eq_getElem inside⟩

theorem getElem?_page (paged : Paged size pages items) (positive : 0 < size) {idx : Nat}
    (found : pages[idx / size]? = some page) : page[idx % size]? = items[idx]? := by
  have inPage : idx % size < size := Nat.mod_lt idx positive
  have position : idx / size * size + idx % size = idx := by
    rw [Nat.mul_comm]
    exact Nat.div_add_mod idx size
  rw [paged.page_eq found, List.getElem?_take_of_lt inPage, List.getElem?_drop, position]

theorem append (paged : Paged size pages items) (full : page.length = size)
    (positive : 0 < size) : Paged size (page :: pages) (page ++ items) := by
  have nonempty : page ++ items ≠ [] := by
    apply List.append_ne_nil_of_left_ne_nil
    exact List.ne_nil_of_length_pos (full ▸ positive)
  have rest : Paged size pages ((page ++ items).drop size) := by
    rw [← full, List.drop_left, full]
    exact paged
  have whole := Paged.cons nonempty rest
  rwa [← full, List.take_left, full] at whole

theorem single (nonempty : items ≠ []) (fits : items.length ≤ size) :
    Paged size [items] items := by
  have rest : Paged size [] (items.drop size) := by
    rw [List.drop_of_length_le fits]
    exact .nil
  have whole := Paged.cons nonempty rest
  rwa [List.take_of_length_le fits] at whole

theorem of_chopped (chopped : pages.IsChain fun first _ => first.length = size)
    (nonempty : ∀ page ∈ pages, page ≠ []) (short : ∀ page ∈ pages, page.length ≤ size) :
    Paged size pages pages.flatten := by
  induction pages with
  | nil => exact .nil
  | cons first others induction =>
      have parts : ((first :: others).flatten.take size = first ∧
          (first :: others).flatten.drop size = others.flatten) := by
        rw [List.flatten_cons]
        cases others with
        | nil =>
            rw [List.flatten_nil, List.append_nil,
              List.take_of_length_le (short first List.mem_cons_self),
              List.drop_of_length_le (short first List.mem_cons_self)]
            exact ⟨rfl, rfl⟩
        | cons second others =>
            have full : first.length = size := (List.isChain_cons_cons.mp chopped).1
            rw [← full, List.take_left, List.drop_left]
            exact ⟨rfl, rfl⟩
      have occupied : (first :: others).flatten ≠ [] := by
        rw [List.flatten_cons]
        exact List.append_ne_nil_of_left_ne_nil (nonempty first List.mem_cons_self) _
      have rest := induction chopped.tail
        (fun page member => nonempty page (List.mem_cons_of_mem _ member))
        (fun page member => short page (List.mem_cons_of_mem _ member))
      rw [← parts.2] at rest
      have whole := Paged.cons occupied rest
      rwa [parts.1] at whole

theorem records {β : Type v} {encode : β → List α} {width perPage : Nat} {items : List β}
    (paged : Paged (perPage * width) pages (items.flatMap encode))
    (uniform : ∀ item, (encode item).length = width) (positive : 0 < width) :
    ∃ recordPages, Paged perPage recordPages items ∧
      pages = recordPages.map fun page => page.flatMap encode := by
  induction pages generalizing items with
  | nil =>
      have length := congrArg List.length paged.flatten
      rw [length_flatMap_of_uniform uniform, List.flatten_nil, List.length_nil] at length
      have empty : items = [] := by
        apply List.length_eq_zero_iff.mp
        rcases Nat.mul_eq_zero.mp length.symm with empty | zero
        · exact empty
        · omega
      rw [empty]
      exact ⟨[], .nil, rfl⟩
  | cons page pages induction =>
      rcases @splitAt_flatMap_of_uniform _ _ _ _ items uniform perPage with ⟨front, behind⟩
      have occupied : items ≠ [] := by
        rintro rfl
        cases paged
        contradiction
      cases paged with
      | cons nonempty rest =>
          rw [behind] at rest
          rcases induction rest with ⟨recordPages, pagedRecords, rfl⟩
          refine ⟨items.take perPage :: recordPages, .cons occupied pagedRecords, ?_⟩
          rw [front, List.map_cons]

end Paged

end SquashfsFuse
