import Mathlib.Data.Set.Insert
import Mathlib.Logic.Function.Basic
import Mathlib.Tactic.Common

/-! Objects that are created, held, freed and lost, each by the one who holds it. -/

namespace SquashfsFuse

/-- Objects by their addresses, who holds them, and what became of those that nobody holds. -/
structure Custody (Holder Object : Type) where
  objects : Nat → Option Object
  created : Nat
  holds : Holder → Set Nat
  freed : List Nat
  lost : List Nat

namespace Custody

variable {Holder Object : Type}

/-! ## What a holder does -/

def empty : Custody Holder Object where
  objects := fun _ => none
  created := 0
  holds := fun _ => ∅
  freed := []
  lost := []

def change (custody : Custody Holder Object) (address : Nat) (object : Object) :
    Custody Holder Object :=
  { custody with objects := Function.update custody.objects address (some object) }

def create (custody : Custody Holder Object) (holder : Holder) (object : Object) :
    Custody Holder Object :=
  { custody with
    objects := Function.update custody.objects custody.created (some object)
    created := custody.created + 1
    holds := fun other =>
      {address | address ∈ custody.holds other ∨ other = holder ∧ address = custody.created} }

def free (custody : Custody Holder Object) (address : Nat) : Custody Holder Object :=
  { custody with
    objects := Function.update custody.objects address none
    holds := fun other => custody.holds other \ {address}
    freed := address :: custody.freed }

def lose (custody : Custody Holder Object) (address : Nat) : Custody Holder Object :=
  { custody with
    holds := fun other => custody.holds other \ {address}
    lost := address :: custody.lost }

/-! ## What holds of all objects -/

/-- Nobody holds what another holds, only what is live is held, and every address that was ever
created is held, lost or freed, and in only one of these ways. -/
structure Sound (custody : Custody Holder Object) : Prop where
  apart : ∀ holder other address, address ∈ custody.holds holder →
    address ∈ custody.holds other → holder = other
  live : ∀ address, (custody.objects address).isSome ↔
    (∃ holder, address ∈ custody.holds holder) ∨ address ∈ custody.lost
  settled : ∀ address, address < custody.created ↔
    (custody.objects address).isSome ∨ address ∈ custody.freed
  lostAlone : ∀ address ∈ custody.lost, ∀ holder, address ∉ custody.holds holder
  freedDead : ∀ address ∈ custody.freed, custody.objects address = none
  freedOnce : custody.freed.Nodup
  lostOnce : custody.lost.Nodup

theorem sound_empty : (empty : Custody Holder Object).Sound where
  apart := nofun
  live := fun _ => by simp [empty]
  settled := fun _ => by simp [empty]
  lostAlone := nofun
  freedDead := nofun
  freedOnce := .nil
  lostOnce := .nil

section Steps

variable {custody : Custody Holder Object} {holder : Holder} {address : Nat}

theorem Sound.isSome (sound : custody.Sound) (held : address ∈ custody.holds holder) :
    (custody.objects address).isSome :=
  (sound.live address).mpr (.inl ⟨holder, held⟩)

theorem Sound.notFreed (sound : custody.Sound) (held : address ∈ custody.holds holder) :
    address ∉ custody.freed := by
  intro freed
  have live := sound.isSome held
  rw [sound.freedDead address freed] at live
  cases live

theorem Sound.holds_of_ne (sound : custody.Sound) (held : address ∈ custody.holds holder)
    {other : Holder} (different : other ≠ holder) : address ∉ custody.holds other := fun also =>
  different (sound.apart _ _ _ also held)

theorem isSome_update {objects : Nat → Option Object} (object : Object) (other : Nat) :
    (Function.update objects address (some object) other).isSome ↔
      other = address ∨ (objects other).isSome := by
  by_cases same : other = address
  · subst same
    simp
  · rw [Function.update_of_ne same]
    simp [same]

theorem Sound.change (sound : custody.Sound) (held : address ∈ custody.holds holder)
    (object : Object) : (custody.change address object).Sound := by
  have same (other : Nat) : (Function.update custody.objects address (some object) other).isSome ↔
      (custody.objects other).isSome := by
    rw [isSome_update]
    exact ⟨fun live => live.elim (fun same => same ▸ sound.isSome held) id, .inr⟩
  refine ⟨sound.apart, fun other => ?_, fun other => ?_, sound.lostAlone, ?_, sound.freedOnce,
    sound.lostOnce⟩
  · exact (same other).trans (sound.live other)
  · exact (sound.settled other).trans (or_congr_left (same other).symm)
  · intro other freed
    have different : other ≠ address := fun same => sound.notFreed held (same ▸ freed)
    dsimp only [Custody.change]
    rw [Function.update_of_ne different]
    exact sound.freedDead other freed

theorem Sound.create (sound : custody.Sound) (holder : Holder) (object : Object) :
    (custody.create holder object).Sound := by
  have dead : ¬(custody.objects custody.created).isSome := fun live =>
    absurd ((sound.settled _).mpr (.inl live)) (Nat.lt_irrefl _)
  have notFreed : custody.created ∉ custody.freed := fun freed =>
    absurd ((sound.settled _).mpr (.inr freed)) (Nat.lt_irrefl _)
  have notHeld (other : Holder) : custody.created ∉ custody.holds other :=
    fun held => dead (sound.isSome held)
  have notLost : custody.created ∉ custody.lost := fun lost =>
    dead ((sound.live _).mpr (.inr lost))
  refine ⟨?_, ?_, ?_, ?_, ?_, sound.freedOnce, sound.lostOnce⟩
  · rintro first second other (firstHolds | ⟨rfl, rfl⟩) (secondHolds | ⟨rfl, same⟩)
    · exact sound.apart _ _ _ firstHolds secondHolds
    · exact absurd (same ▸ firstHolds) (notHeld first)
    · exact absurd secondHolds (notHeld second)
    · rfl
  · intro other
    refine (isSome_update object other).trans ?_
    rw [sound.live other]
    constructor
    · rintro (rfl | ⟨keeper, held⟩ | lost)
      · exact .inl ⟨holder, .inr ⟨rfl, rfl⟩⟩
      · exact .inl ⟨keeper, .inl held⟩
      · exact .inr lost
    · rintro (⟨keeper, held | ⟨-, rfl⟩⟩ | lost)
      · exact .inr (.inl ⟨keeper, held⟩)
      · exact .inl rfl
      · exact .inr (.inr lost)
  · intro other
    have before := sound.settled other
    dsimp only [Custody.create]
    rw [isSome_update object other, or_assoc, ← before]
    omega
  · rintro other lost keeper (held | ⟨-, rfl⟩)
    · exact sound.lostAlone other lost keeper held
    · exact notLost lost
  · intro other freed
    have different : other ≠ custody.created := fun same => notFreed (same ▸ freed)
    dsimp only [Custody.create]
    rw [Function.update_of_ne different]
    exact sound.freedDead other freed

theorem Sound.free (sound : custody.Sound) (held : address ∈ custody.holds holder) :
    (custody.free address).Sound := by
  have notLost : address ∉ custody.lost := fun lost => sound.lostAlone address lost holder held
  have live (other : Nat) : (Function.update custody.objects address none other).isSome ↔
      other ≠ address ∧ (custody.objects other).isSome := by
    by_cases same : other = address
    · subst same
      simp
    · rw [Function.update_of_ne same]
      simp [same]
  refine ⟨?_, ?_, ?_, ?_, ?_, ?_, sound.lostOnce⟩
  · exact fun first second other firstHolds secondHolds =>
      sound.apart _ _ _ firstHolds.1 secondHolds.1
  · intro other
    refine (live other).trans ?_
    rw [sound.live other]
    constructor
    · rintro ⟨different, ⟨keeper, held⟩ | lost⟩
      · exact .inl ⟨keeper, held, different⟩
      · exact .inr lost
    · rintro (⟨keeper, held, different⟩ | lost)
      · exact ⟨different, .inl ⟨keeper, held⟩⟩
      · exact ⟨fun same => notLost (same ▸ lost), .inr lost⟩
  · intro other
    refine (sound.settled other).trans ?_
    dsimp only [Custody.free]
    rw [live other, List.mem_cons]
    have present := sound.isSome held
    constructor
    · rintro (live | freed)
      · by_cases same : other = address
        · exact .inr (.inl same)
        · exact .inl ⟨same, live⟩
      · exact .inr (.inr freed)
    · rintro (⟨-, live⟩ | rfl | freed)
      · exact .inl live
      · exact .inl present
      · exact .inr freed
  · exact fun other lost keeper held => sound.lostAlone other lost keeper held.1
  · intro other freed
    dsimp only [Custody.free]
    by_cases same : other = address
    · subst same
      exact Function.update_self ..
    · rw [Function.update_of_ne same]
      exact sound.freedDead other ((List.mem_cons.mp freed).resolve_left same)
  · exact List.nodup_cons.mpr ⟨sound.notFreed held, sound.freedOnce⟩

theorem Sound.lose (sound : custody.Sound) (held : address ∈ custody.holds holder) :
    (custody.lose address).Sound := by
  refine ⟨?_, ?_, sound.settled, ?_, sound.freedDead, sound.freedOnce, ?_⟩
  · exact fun first second other firstHolds secondHolds =>
      sound.apart _ _ _ firstHolds.1 secondHolds.1
  · intro other
    refine (sound.live other).trans ?_
    dsimp only [Custody.lose]
    rw [List.mem_cons]
    constructor
    · rintro (⟨keeper, keeps⟩ | lost)
      · by_cases same : other = address
        · exact .inr (.inl same)
        · exact .inl ⟨keeper, keeps, same⟩
      · exact .inr (.inr lost)
    · rintro (⟨keeper, keeps, -⟩ | rfl | lost)
      · exact .inl ⟨keeper, keeps⟩
      · exact .inl ⟨holder, held⟩
      · exact .inr lost
  · rintro other lost keeper ⟨keeps, different⟩
    rcases List.mem_cons.mp lost with same | lost
    · exact different same
    · exact sound.lostAlone other lost keeper keeps
  · exact List.nodup_cons.mpr
      ⟨fun lost => sound.lostAlone address lost holder held, sound.lostOnce⟩

end Steps

end Custody

end SquashfsFuse
