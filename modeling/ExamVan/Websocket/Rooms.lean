import ExamVan.Lib.Bytes
import Mathlib.Data.Finset.Basic
import Mathlib.Logic.Function.Basic

/-!
# The rooms of the hub

`rooms_` maps a room to the set of its clients. A room whose last client leaves is taken out.
-/

namespace ExamVan.Websocket

open ByteString

abbrev Room := Bytes

abbrev Rooms (γ : Type) := Room → Option (Finset γ)

namespace Rooms

variable {γ : Type} [DecidableEq γ]

def empty : Rooms γ := fun _ => none

/-- `rooms_[room].insert(c)` -/
def insert (rooms : Rooms γ) (room : Room) (c : γ) : Rooms γ :=
  Function.update rooms room (some (Insert.insert c ((rooms room).getD ∅)))

/-- `it->second.erase(c)` -/
def erase (rooms : Rooms γ) (room : Room) (c : γ) : Rooms γ :=
  match rooms room with
  | none => rooms
  | some members => Function.update rooms room (some (members.erase c))

/-- `if(it->second.empty()) rooms_.erase(it)` -/
def prune (rooms : Rooms γ) (room : Room) : Rooms γ :=
  if rooms room = some ∅ then Function.update rooms room none else rooms

/-- A client is registered in a room. -/
def Holds (rooms : Rooms γ) (room : Room) (c : γ) : Prop := ∃ members, rooms room = some members ∧ c ∈ members

/-- No room is kept that has no clients. -/
def NoneEmpty (rooms : Rooms γ) : Prop := ∀ room, rooms room ≠ some ∅

variable {rooms : Rooms γ} {room room' : Room} {c d : γ}

omit [DecidableEq γ] in
@[simp]
theorem not_holds_empty : ¬ (empty : Rooms γ).Holds room c := fun ⟨_, h, _⟩ => by cases h

theorem holds_insert :
    (rooms.insert room c).Holds room' d ↔ rooms.Holds room' d ∨ (room' = room ∧ d = c) := by
  unfold Holds insert
  by_cases hroom : room' = room
  · subst hroom
    cases hmembers : rooms room' with
    | none => simp
    | some members => simp [or_comm]
  · simp [hroom]

theorem erase_of_ne (hne : room' ≠ room) : rooms.erase room c room' = rooms room' := by
  unfold erase
  cases rooms room with
  | none => rfl
  | some members => exact Function.update_of_ne hne ..

theorem holds_erase :
    (rooms.erase room c).Holds room' d ↔ rooms.Holds room' d ∧ ¬ (room' = room ∧ d = c) := by
  unfold Holds erase
  cases hmembers : rooms room with
  | none =>
      dsimp only
      refine ⟨fun h => ⟨h, fun ⟨hroom, _⟩ => ?_⟩, fun h => h.1⟩
      obtain ⟨members, hroom', -⟩ := h
      rw [hroom, hmembers] at hroom'
      cases hroom'
  | some members =>
      by_cases hroom : room' = room
      · subst hroom
        simp [hmembers, and_comm]
      · simp [hroom]

theorem holds_prune : (rooms.prune room).Holds room' c ↔ rooms.Holds room' c := by
  unfold Holds prune
  by_cases hempty : rooms room = some ∅
  · rw [if_pos hempty]
    by_cases hroom : room' = room
    · subst hroom
      simp [hempty]
    · simp [hroom]
  · rw [if_neg hempty]

theorem NoneEmpty.insert (h : rooms.NoneEmpty) : (rooms.insert room c).NoneEmpty := by
  intro room' hempty
  unfold Rooms.insert at hempty
  by_cases hroom : room' = room
  · subst hroom
    rw [Function.update_self] at hempty
    exact Finset.insert_ne_empty _ _ (Option.some.inj hempty)
  · rw [Function.update_of_ne hroom] at hempty
    exact h room' hempty

/-- If only one room can be empty, pruning it leaves none. -/
theorem noneEmpty_prune (h : ∀ room', room' ≠ room → rooms room' ≠ some ∅) :
    (rooms.prune room).NoneEmpty := by
  intro room' hempty
  unfold prune at hempty
  split at hempty
  · by_cases hroom : room' = room
    · subst hroom
      rw [Function.update_self] at hempty
      cases hempty
    · rw [Function.update_of_ne hroom] at hempty
      exact h room' hroom hempty
  next hne =>
    by_cases hroom : room' = room
    · exact hne (hroom ▸ hempty)
    · exact h room' hroom hempty

end Rooms

end ExamVan.Websocket
