import ExamVan.Lib.Bytes
import ExamVan.Lib.Incremental

/-!
# WebSocket frames

The receive loop reads a header, a mask if there is one, and the payload off the front of its
buffer. A length of 64 bits over the limit is seen as soon as its header is there.
-/

namespace ExamVan.Websocket

open ByteString

/-- `5*1024*1024` -/
def maxPayload : Nat := 5 * 1024 * 1024

structure Frame where
  fin : Bool
  opcode : UInt8
  payload : Bytes
  deriving DecidableEq

/-- What the loop finds next: a frame, or a length that is too large. -/
inductive Item
  | tooLong
  | frame (f : Frame)
  deriving DecidableEq

/-- `payload[i] = acc[off+i] ^ (masked?mask[i%4]:0)` -/
def unmask (mask payload : Bytes) : Bytes :=
  payload.mapIdx fun i b => b ^^^ mask.getD (i % 4) 0

/-- The part of a frame after its length. -/
def readBody (b0 : UInt8) (masked : Bool) (len : Nat) (buf : Bytes) : Option (Item × Bytes) :=
  let maskSize := if masked then 4 else 0
  if buf.length < maskSize then none
  else
    let body := buf.drop maskSize
    if body.length < len then none
    else
      let payload := unmask (buf.take maskSize) (body.take len)
      some (.frame ⟨b0 &&& 0x80 != 0, b0 &&& 0x0F, payload⟩, body.drop len)

/-- The frame at the front of the buffer, if all of it is there. -/
def nextFrame : Bytes → Option (Item × Bytes)
  | b0 :: b1 :: buf =>
      let masked := b1 &&& 0x80 != 0
      let len := (b1 &&& 0x7F).toNat
      if len = 126 then
        if buf.length < 2 then none
        else readBody b0 masked (bigEndian (buf.take 2)) (buf.drop 2)
      else if len = 127 then
        if buf.length < 8 then none
        else
          let len := bigEndian (buf.take 8)
          if maxPayload < len then some (.tooLong, buf.drop 8)
          else readBody b0 masked len (buf.drop 8)
      else readBody b0 masked len buf
  | _ => none

variable {b0 : UInt8} {masked : Bool} {len : Nat} {buf rest : Bytes} {i : Item}

theorem readBody_extend (h : readBody b0 masked len buf = some (i, rest)) (c : Bytes) :
    readBody b0 masked len (buf ++ c) = some (i, rest ++ c) := by
  unfold readBody at h ⊢
  dsimp only at h ⊢
  generalize (if masked then 4 else 0) = maskSize at h ⊢
  split at h
  · cases h
  next hmask =>
    split at h
    · cases h
    next hbody =>
      obtain ⟨rfl, rfl⟩ := Prod.mk.inj (Option.some.inj h)
      have hmask' : maskSize ≤ buf.length := Nat.not_lt.mp hmask
      have hbody' : len ≤ (buf.drop maskSize).length := Nat.not_lt.mp hbody
      rw [List.take_append_of_le_length hmask', List.drop_append_of_le_length hmask',
        List.take_append_of_le_length hbody', List.drop_append_of_le_length hbody', if_neg, if_neg]
      · rw [List.length_append]
        omega
      · rw [List.length_append]
        omega

theorem length_le_of_readBody (h : readBody b0 masked len buf = some (i, rest)) :
    rest.length ≤ buf.length := by
  unfold readBody at h
  dsimp only at h
  generalize (if masked then 4 else 0) = maskSize at h
  split at h
  · cases h
  · split at h
    · cases h
    · obtain ⟨-, rfl⟩ := Prod.mk.inj (Option.some.inj h)
      rw [List.length_drop, List.length_drop]
      omega

theorem nextFrame_extend (h : nextFrame buf = some (i, rest)) (c : Bytes) :
    nextFrame (buf ++ c) = some (i, rest ++ c) := by
  unfold nextFrame at h
  split at h
  next b0 b1 buf =>
    rw [List.cons_append, List.cons_append, nextFrame]
    dsimp only at h ⊢
    have htake : ∀ {n}, ¬ buf.length < n → (buf ++ c).take n = buf.take n ∧
        (buf ++ c).drop n = buf.drop n ++ c ∧ ¬ (buf ++ c).length < n := by
      intro n hn
      have hle : n ≤ buf.length := Nat.not_lt.mp hn
      refine ⟨List.take_append_of_le_length hle, List.drop_append_of_le_length hle, ?_⟩
      rw [List.length_append]
      omega
    split at h
    next h126 =>
      rw [if_pos h126]
      split at h
      · cases h
      next hlen =>
        obtain ⟨htake, hdrop, hlength⟩ := htake hlen
        rw [if_neg hlength, htake, hdrop]
        exact readBody_extend h c
    next h126 =>
      rw [if_neg h126]
      split at h
      next h127 =>
        rw [if_pos h127]
        split at h
        · cases h
        next hlen =>
          obtain ⟨htake, hdrop, hlength⟩ := htake hlen
          rw [if_neg hlength, htake, hdrop]
          split at h
          next hlong =>
            obtain ⟨rfl, rfl⟩ := Prod.mk.inj (Option.some.inj h)
            rw [if_pos hlong]
          next hlong =>
            rw [if_neg hlong]
            exact readBody_extend h c
      next h127 =>
        rw [if_neg h127]
        exact readBody_extend h c
  · cases h

theorem nextFrame_shorter (h : nextFrame buf = some (i, rest)) : rest.length < buf.length := by
  unfold nextFrame at h
  split at h
  next b0 b1 buf =>
    have hle : rest.length ≤ buf.length := by
      dsimp only at h
      split at h
      · split at h
        · cases h
        · exact (length_le_of_readBody h).trans (List.length_drop ▸ Nat.sub_le _ _)
      · split at h
        · split at h
          · cases h
          · split at h
            · obtain ⟨-, rfl⟩ := Prod.mk.inj (Option.some.inj h)
              exact List.length_drop ▸ Nat.sub_le _ _
            · exact (length_le_of_readBody h).trans (List.length_drop ▸ Nat.sub_le _ _)
        · exact length_le_of_readBody h
    rw [List.length_cons, List.length_cons]
    omega
  · cases h

/-- The frames of a stream. -/
def frames : Incremental Item UInt8 where
  next := nextFrame
  shorter := nextFrame_shorter
  extend := nextFrame_extend

end ExamVan.Websocket
