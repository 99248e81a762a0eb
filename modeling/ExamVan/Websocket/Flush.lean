import ExamVan.Websocket.Frame

/-!
# What the server sends

`flush_queue` and the answer to a ping write one header format with three lengths. A frame is sent in
as many pieces as `send` takes, and the first failing `send` ends it.
-/

namespace ExamVan.Websocket

open ByteString

/-- The length of a frame, after its first byte. -/
def sizeBytes (size : Nat) : Bytes :=
  if size < 126 then [UInt8.ofNat size]
  else if size < 65536 then 126 :: bigEndianBytes 2 size
  else 127 :: bigEndianBytes 8 size

/-- A queued message, and whether it is binary. -/
abbrev Queued := Bytes × Bool

def queuedFrame (m : Queued) : Bytes :=
  (if m.2 then 0x82 else 0x81) :: (sizeBytes m.1.length ++ m.1)

def pongFrame (payload : Bytes) : Bytes := 0x8A :: (sizeBytes payload.length ++ payload)

/-- What `send` has returned so far, what has been written, and whether all of it has. -/
structure Sending where
  ok : Bool
  written : Bytes
  sends : List Int
  deriving DecidableEq

/-- The loop around `send`. `sends` are its coming results; when there are none left, it fails. -/
def sendAll : Bytes → List Int → Sending
  | [], sends => ⟨true, [], sends⟩
  | _ :: _, [] => ⟨false, [], []⟩
  | b :: frame, n :: sends =>
      if n ≤ 0 then ⟨false, [], sends⟩
      else
        let sent := sendAll ((b :: frame).drop n.toNat) sends
        { sent with written := (b :: frame).take n.toNat ++ sent.written }

/-- `flush_queue` on the messages that it pops. -/
def flushQueue : List Queued → List Int → Sending
  | [], sends => ⟨true, [], sends⟩
  | m :: queue, sends =>
      let sent := sendAll (queuedFrame m) sends
      if !sent.ok then sent
      else
        let rest := flushQueue queue sent.sends
        { rest with written := sent.written ++ rest.written }

/-! ### The bytes of a frame -/

theorem written_sendAll (frame : Bytes) (sends : List Int) :
    (sendAll frame sends).written <+: frame ∧
      ((sendAll frame sends).ok = true → (sendAll frame sends).written = frame) := by
  induction sends generalizing frame with
  | nil =>
      cases frame with
      | nil => exact ⟨List.nil_prefix, fun _ => rfl⟩
      | cons b frame => exact ⟨List.nil_prefix, fun h => by cases h⟩
  | cons n sends ih =>
      cases frame with
      | nil => exact ⟨List.nil_prefix, fun _ => rfl⟩
      | cons b frame =>
          rw [sendAll]
          split
          · exact ⟨List.nil_prefix, fun h => by cases h⟩
          · obtain ⟨hwritten, hall⟩ := ih ((b :: frame).drop n.toNat)
            have hsplit := List.take_append_drop n.toNat (b :: frame)
            refine ⟨?_, fun hok => ?_⟩
            · conv_rhs => rw [← hsplit]
              exact (List.prefix_append_right_inj _).mpr hwritten
            · dsimp only at hok ⊢
              rw [hall hok, hsplit]

/-- What is written is the beginning of the frames of the queue, and all of them unless a `send`
fails. -/
theorem written_flushQueue (queue : List Queued) (sends : List Int) :
    (flushQueue queue sends).written <+: queue.flatMap queuedFrame ∧
      ((flushQueue queue sends).ok = true →
        (flushQueue queue sends).written = queue.flatMap queuedFrame) := by
  induction queue generalizing sends with
  | nil => exact ⟨List.nil_prefix, fun _ => rfl⟩
  | cons m queue ih =>
      obtain ⟨hwritten, hall⟩ := written_sendAll (queuedFrame m) sends
      rw [flushQueue, List.flatMap_cons]
      cases hok : (sendAll (queuedFrame m) sends).ok with
      | false =>
          simp only [Bool.not_false, if_true, hok, Bool.false_eq_true, false_implies, and_true]
          exact hwritten.trans (List.prefix_append _ _)
      | true =>
          obtain ⟨hrest, hallRest⟩ := ih (sendAll (queuedFrame m) sends).sends
          have hwritten := hall hok
          simp only [Bool.not_true, Bool.false_eq_true, if_false, hwritten]
          exact ⟨(List.prefix_append_right_inj _).mpr hrest, fun h => by rw [hallRest h]⟩

/-! ### Reading it back -/

theorem unmask_nil (payload : Bytes) : unmask [] payload = payload := by
  apply List.ext_getElem
  · exact List.length_mapIdx
  · intro n h h'
    simp [unmask]

theorem readBody_payload (b0 : UInt8) (payload rest : Bytes) :
    readBody b0 false payload.length (payload ++ rest) =
      some (.frame ⟨b0 &&& 0x80 != 0, b0 &&& 0x0F, payload⟩, rest) := by
  have htake : (payload ++ rest).take payload.length = payload := List.take_left
  have hdrop : (payload ++ rest).drop payload.length = rest := List.drop_left
  unfold readBody
  simp only [Bool.false_eq_true, if_false, Nat.not_lt_zero, List.drop_zero, List.take_zero, htake,
    hdrop, unmask_nil, List.length_append]
  rw [if_neg (by omega)]

/-- The 7 bits of a length, and no mask. -/
theorem size_bits : ∀ n : Fin 128, UInt8.ofNat n &&& 0x80 = 0 ∧
    (UInt8.ofNat n &&& 0x7F).toNat = n := by
  decide +kernel

theorem nextFrame_sizeBytes (b0 : UInt8) {payload : Bytes} (hsize : payload.length ≤ maxPayload)
    (rest : Bytes) :
    nextFrame (b0 :: (sizeBytes payload.length ++ payload) ++ rest) =
      some (.frame ⟨b0 &&& 0x80 != 0, b0 &&& 0x0F, payload⟩, rest) := by
  have hbits : ∀ {n : Nat}, n < 128 → (UInt8.ofNat n &&& 0x80 != 0) = false ∧
      (UInt8.ofNat n &&& 0x7F).toNat = n := by
    intro n hn
    obtain ⟨hmask, hlen⟩ := size_bits ⟨n, hn⟩
    exact ⟨by rw [hmask]; rfl, hlen⟩
  have hlong : ∀ {k : Nat}, payload.length < 256 ^ k →
      (bigEndianBytes k payload.length ++ (payload ++ rest)).length ≥ k ∧
      bigEndian ((bigEndianBytes k payload.length ++ (payload ++ rest)).take k) = payload.length ∧
      (bigEndianBytes k payload.length ++ (payload ++ rest)).drop k = payload ++ rest := by
    intro k hk
    refine ⟨?_, ?_, ?_⟩
    · rw [List.length_append, length_bigEndianBytes]
      omega
    · rw [List.take_left' (length_bigEndianBytes k _), bigEndian_bigEndianBytes hk]
    · rw [List.drop_left' (length_bigEndianBytes k _)]
  unfold sizeBytes
  split
  next h126 =>
    obtain ⟨hmask, hlen⟩ := hbits (Nat.lt_trans h126 (by decide : 126 < 128))
    simp only [List.cons_append, List.nil_append, nextFrame, hmask, hlen]
    rw [if_neg (by omega), if_neg (by omega)]
    exact readBody_payload b0 payload rest
  next h126 =>
    split
    next h16 =>
      obtain ⟨hlength, hvalue, hdrop⟩ := hlong (k := 2) h16
      obtain ⟨hmask, hlen⟩ := hbits (by decide : 126 < 128)
      have hmask' : ((126 : UInt8) &&& 0x80 != 0) = false := hmask
      have hlen' : ((126 : UInt8) &&& 0x7F).toNat = 126 := hlen
      simp only [List.cons_append, List.append_assoc, nextFrame, hmask', hlen', if_true]
      rw [if_neg (by omega), hvalue, hdrop]
      exact readBody_payload b0 payload rest
    next h16 =>
      obtain ⟨hlength, hvalue, hdrop⟩ := hlong (k := 8) (Nat.lt_of_le_of_lt hsize (by decide))
      have hmask' : ((127 : UInt8) &&& 0x80 != 0) = false := by decide
      have hlen' : ((127 : UInt8) &&& 0x7F).toNat = 127 := by decide
      simp only [List.cons_append, List.append_assoc, nextFrame, hmask', hlen', if_true]
      rw [if_neg (by decide), if_neg (by omega), hvalue, hdrop, if_neg (by omega)]
      exact readBody_payload b0 payload rest

/-- What the server sends on a connection. -/
inductive Sent
  | message (m : Queued)
  | pong (payload : Bytes)

def Sent.payload : Sent → Bytes
  | .message m => m.1
  | .pong payload => payload

def Sent.bytes : Sent → Bytes
  | .message m => queuedFrame m
  | .pong payload => pongFrame payload

/-- The frame that a receiver is to see. -/
def Sent.frame : Sent → Frame
  | .message m => ⟨true, if m.2 then 0x2 else 0x1, m.1⟩
  | .pong payload => ⟨true, 0xA, payload⟩

theorem nextFrame_sent (sent : Sent) (hsize : sent.payload.length ≤ maxPayload) (rest : Bytes) :
    nextFrame (sent.bytes ++ rest) = some (.frame sent.frame, rest) := by
  cases sent with
  | message m =>
      obtain ⟨payload, binary⟩ := m
      cases binary with
      | false => exact nextFrame_sizeBytes 0x81 hsize rest
      | true => exact nextFrame_sizeBytes 0x82 hsize rest
  | pong payload => exact nextFrame_sizeBytes 0x8A hsize rest

theorem items_sent {sent : List Sent} (hsize : ∀ f ∈ sent, f.payload.length ≤ maxPayload) :
    frames.Items (sent.flatMap Sent.bytes) (sent.map fun f => .frame f.frame) [] := by
  induction sent with
  | nil => exact .kept rfl
  | cons f sent ih =>
      rw [List.flatMap_cons, List.map_cons]
      refine .item (nextFrame_sent f (hsize f List.mem_cons_self) _) (ih fun g hg => ?_)
      exact hsize g (List.mem_cons_of_mem f hg)

end ExamVan.Websocket
