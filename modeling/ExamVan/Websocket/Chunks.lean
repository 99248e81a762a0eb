import ExamVan.Websocket.Connection

/-!
# Frames and chunks

What the loop does with a stream is what it does with its frames one after the other, wherever `recv`
cuts the stream, as long as the part of a frame that it keeps has at most the limit. A frame that is
just allowed is longer than the limit with its header, so a cut in its last bytes ends the
connection. Where each frame arrives alone, `recv` never cuts there.
-/

namespace ExamVan.Websocket

open ByteString

variable {ws : Ws} {buf rest : Bytes} {item : Item}

/-- The connection on a stream whose frames are handled one after the other. -/
def Ws.frameByFrame (ws : Ws) (stream : Bytes) : Fed Ws (Exit × Ws) :=
  frames.whole Ws.handle ws stream

/-- While the connection is open, no cut leaves more than the limit of a frame. -/
def Ws.CutsFit (ws : Ws) (chunks : List Chunk) : Prop :=
  frames.Fits Ws.handle maxPayload ws [] (chunks.map Subtype.val)

/-- The messages, the bytes sent, the state of the rooms, and where and why the loop ends are those
of the frames one after the other exactly if the cuts fit. -/
theorem loop_eq_frameByFrame_iff (ws : Ws) (chunks : List Chunk) :
    ws.loop chunks = ws.frameByFrame (chunks.map Subtype.val).flatten ↔ ws.CutsFit chunks :=
  Incremental.feed_eq_whole_iff rfl (Nat.zero_le _)

/-! ### Frames that arrive alone -/

theorem length_of_readBody {b0 : UInt8} {masked : Bool} {len : Nat}
    (h : readBody b0 masked len buf = some (item, rest)) : buf.length ≤ len + 4 + rest.length := by
  have hmask : (if masked then 4 else 0) ≤ 4 := by split <;> decide
  unfold readBody at h
  dsimp only at h
  generalize (if masked then 4 else 0) = maskSize at h hmask
  split at h
  · cases h
  · split at h
    · cases h
    · obtain ⟨-, rfl⟩ := Prod.mk.inj (Option.some.inj h)
      rw [List.length_drop, List.length_drop]
      omega

/-- A frame has at most 14 bytes beside its payload. -/
theorem length_of_nextFrame (h : nextFrame buf = some (item, rest)) :
    buf.length ≤ maxPayload + 14 + rest.length := by
  have hmax : maxPayload = 5242880 := rfl
  unfold nextFrame at h
  split at h
  next b0 b1 buf =>
    rw [List.length_cons, List.length_cons]
    dsimp only at h
    split at h
    · split at h
      · cases h
      next hlength =>
        have htwo : (buf.take 2).length = 2 := by
          rw [List.length_take]
          omega
        have hbytes := bigEndian_lt (buf.take 2)
        have hbody := length_of_readBody h
        rw [htwo] at hbytes
        rw [List.length_drop] at hbody
        omega
    · split at h
      · split at h
        · cases h
        · split at h
          · obtain ⟨-, rfl⟩ := Prod.mk.inj (Option.some.inj h)
            rw [List.length_drop]
            omega
          next hlen =>
            have hbody := length_of_readBody h
            rw [List.length_drop] at hbody
            omega
      · have hbyte : (b1 &&& 0x7F).toNat < 256 := UInt8.toNat_lt _
        have hbody := length_of_readBody h
        omega
  · cases h

/-- The beginning of a frame is not a frame. -/
theorem nextFrame_eq_none_of_append {first last : Bytes} (hlast : last ≠ [])
    (h : nextFrame (first ++ last) = some (item, [])) : nextFrame first = none := by
  cases hfirst : nextFrame first with
  | none => rfl
  | some found =>
      obtain ⟨item', rest⟩ := found
      have hrest := (nextFrame_extend hfirst last).symm.trans h
      obtain ⟨-, hempty⟩ := Prod.mk.inj (Option.some.inj hrest)
      exact absurd (List.append_eq_nil_iff.mp hempty).2 hlast

/-- A frame arrives alone: `recv` fills its buffer up to the last bytes of the frame. -/
structure Alone (chunks : List Chunk) : Prop where
  frame : ∃ item, nextFrame (chunks.map Subtype.val).flatten = some (item, [])
  full : ∀ c ∈ chunks.dropLast, c.1.length = 4096

/-- The chunks of a frame that are still to come, when `n` full ones of it are kept. -/
theorem fits_rest_of_frame {kept : Bytes} {n : Nat} {chunks : List Chunk} {more : List Bytes}
    (hne : chunks ≠ []) (hkept : kept.length = 4096 * n)
    (hframe : nextFrame (kept ++ (chunks.map Subtype.val).flatten) = some (item, []))
    (hfull : ∀ c ∈ chunks.dropLast, c.1.length = 4096)
    (hmore : ∀ ws, frames.Fits Ws.handle maxPayload ws [] more) :
    frames.Fits Ws.handle maxPayload ws kept (chunks.map Subtype.val ++ more) := by
  have hmax : maxPayload = 4096 * 1280 := rfl
  induction chunks generalizing kept n ws with
  | nil => exact absurd rfl hne
  | cons c chunks ih =>
      have hlast : (((c :: chunks).map Subtype.val).flatten : Bytes) ≠ [] := fun h =>
        c.2.1 (List.append_eq_nil_iff.mp h).1
      have hnone := nextFrame_eq_none_of_append hlast hframe
      have hlength := length_of_nextFrame hframe
      have hpos := List.length_pos_of_ne_nil hlast
      rw [List.length_append, List.length_nil] at hlength
      have hlimit : kept.length ≤ maxPayload := by omega
      rw [List.map_cons, List.cons_append]
      cases chunks with
      | nil =>
          have hwhole : frames.next (kept ++ c.1) = some (item, []) := by
            rw [← hframe]
            simp [frames]
          cases hhandle : ws.handle item with
          | error e =>
              refine Incremental.fits_cons_of_error (e := e) hnone hlimit ?_
              rw [Incremental.drain_of_some hwhole, hhandle]
              rfl
          | ok ws' =>
              have hdrain : frames.drain Ws.handle ws (kept ++ c.1) = .ok (ws', []) := by
                rw [Incremental.drain_of_some hwhole, hhandle]
                exact Incremental.drain_of_none rfl
              exact (Incremental.fits_cons_of_ok hnone hlimit hdrain).mpr (hmore ws')
      | cons d chunks =>
          have hc : c.1.length = 4096 := hfull c List.mem_cons_self
          have hframe' : nextFrame ((kept ++ c.1) ++ ((d :: chunks).map Subtype.val).flatten) =
              some (item, []) := by
            rw [← hframe, List.append_assoc]
            rfl
          have hlast' : (((d :: chunks).map Subtype.val).flatten : Bytes) ≠ [] := fun h =>
            d.2.1 (List.append_eq_nil_iff.mp h).1
          have hnone' : frames.next (kept ++ c.1) = none := nextFrame_eq_none_of_append hlast' hframe'
          refine (Incremental.fits_cons_of_ok hnone hlimit (Incremental.drain_of_none hnone')).mpr ?_
          refine @ih ws (kept ++ c.1) (n + 1) (List.cons_ne_nil d chunks) ?_ hframe' ?_
          · rw [List.length_append, hkept, hc]
            omega
          · exact fun x hx => hfull x (List.mem_cons_of_mem c hx)

/-- Where each frame arrives alone, the loop handles them one after the other. -/
theorem loop_alone {arrivals : List (List Chunk)} (h : ∀ chunks ∈ arrivals, Alone chunks) (ws : Ws) :
    ws.loop arrivals.flatten = ws.frameByFrame (arrivals.flatten.map Subtype.val).flatten := by
  refine (loop_eq_frameByFrame_iff ws _).mpr ?_
  unfold Ws.CutsFit
  induction arrivals generalizing ws with
  | nil =>
      intro first hfirst s' rest hdrain
      rw [List.prefix_nil.mp hfirst] at hdrain
      cases hdrain
      exact Nat.zero_le _
  | cons chunks arrivals ih =>
      have hmore := fun ws => ih (fun a ha => h a (List.mem_cons_of_mem chunks ha)) ws
      obtain ⟨⟨item, hframe⟩, hfull⟩ := h chunks List.mem_cons_self
      rw [List.flatten_cons, List.map_append]
      refine fits_rest_of_frame (n := 0) (fun hnil => ?_) rfl hframe hfull hmore
      rw [hnil] at hframe
      cases hframe

/-! ### Two frames in full chunks -/

/-- A message of 4078 bytes, with a mask of zeros, and the header of a message of 5 MB. -/
def firstChunk : Chunk :=
  ⟨[0x81, 0xFE, 0x0F, 0xEE, 0, 0, 0, 0] ++ List.replicate 4078 0x20 ++
      [0x82, 0xFF, 0, 0, 0, 0, 0, 0x50, 0, 0],
    List.append_ne_nil_of_right_ne_nil _ (List.cons_ne_nil _ _), by
      rw [List.length_append, List.length_append, List.length_replicate]
      decide⟩

def zeroChunk : Chunk :=
  ⟨List.replicate 4096 0, List.ne_nil_of_length_pos (by rw [List.length_replicate]; decide),
    (List.length_replicate).le⟩

def lastChunk : Chunk := ⟨[0, 0, 0, 0], by decide, by decide⟩

/-- All of the second message but its last four bytes has come in full chunks. -/
def twoFrames : List Chunk := firstChunk :: (List.replicate 1280 zeroChunk ++ [lastChunk])

theorem readBody_mask (b0 : UInt8) (mask payload : Bytes) (hmask : mask.length = 4) (rest : Bytes) :
    readBody b0 true payload.length (mask ++ (payload ++ rest)) =
      some (.frame ⟨b0 &&& 0x80 != 0, b0 &&& 0x0F, unmask mask payload⟩, rest) := by
  have htake : (mask ++ (payload ++ rest)).take 4 = mask := List.take_left' hmask
  have hdrop : (mask ++ (payload ++ rest)).drop 4 = payload ++ rest := List.drop_left' hmask
  have htake' : (payload ++ rest).take payload.length = payload := List.take_left
  have hdrop' : (payload ++ rest).drop payload.length = rest := List.drop_left
  unfold readBody
  simp only [if_true, htake, hdrop, htake', hdrop', List.length_append]
  rw [if_neg (by omega), if_neg (by omega)]

theorem nextFrame_mask16 (b0 : UInt8) (size : Bytes) (hsize : size.length = 2) (buf : Bytes) :
    nextFrame (b0 :: 0xFE :: (size ++ buf)) = readBody b0 true (bigEndian size) buf := by
  have hmask : ((0xFE : UInt8) &&& 0x80 != 0) = true := by decide
  have hlen : ((0xFE : UInt8) &&& 0x7F).toNat = 126 := by decide
  have htake : (size ++ buf).take 2 = size := List.take_left' hsize
  have hdrop : (size ++ buf).drop 2 = buf := List.drop_left' hsize
  simp only [nextFrame, hmask, hlen, if_true, htake, hdrop, List.length_append]
  rw [if_neg (by omega)]

theorem nextFrame_mask64 (b0 : UInt8) (size : Bytes) (hsize : size.length = 8)
    (hmax : bigEndian size ≤ maxPayload) (buf : Bytes) :
    nextFrame (b0 :: 0xFF :: (size ++ buf)) = readBody b0 true (bigEndian size) buf := by
  have hmask : ((0xFF : UInt8) &&& 0x80 != 0) = true := by decide
  have hlen : ((0xFF : UInt8) &&& 0x7F).toNat = 127 := by decide
  have htake : (size ++ buf).take 8 = size := List.take_left' hsize
  have hdrop : (size ++ buf).drop 8 = buf := List.drop_left' hsize
  simp only [nextFrame, hmask, hlen, if_true, htake, hdrop, List.length_append]
  rw [if_neg (by decide), if_neg (by omega), if_neg (by omega)]

theorem nextFrame_firstChunk (rest : Bytes) :
    nextFrame (firstChunk.1 ++ rest) =
      some (.frame ⟨true, 0x1, unmask [0, 0, 0, 0] (List.replicate 4078 0x20)⟩,
        [0x82, 0xFF, 0, 0, 0, 0, 0, 0x50, 0, 0] ++ rest) := by
  have hbody := readBody_mask 0x81 [0, 0, 0, 0] (List.replicate 4078 0x20) rfl
    ([0x82, 0xFF, 0, 0, 0, 0, 0, 0x50, 0, 0] ++ rest)
  rw [List.length_replicate] at hbody
  have hsize : bigEndian [0x0F, 0xEE] = 4078 := by decide
  have hread := nextFrame_mask16 0x81 [0x0F, 0xEE] rfl ([0, 0, 0, 0] ++
    (List.replicate 4078 0x20 ++ ([0x82, 0xFF, 0, 0, 0, 0, 0, 0x50, 0, 0] ++ rest)))
  rw [hsize, hbody] at hread
  rw [firstChunk, List.append_assoc, List.append_assoc]
  exact hread

theorem nextFrame_header {n : Nat} (hn : n < 4 + maxPayload) :
    nextFrame ([0x82, 0xFF, 0, 0, 0, 0, 0, 0x50, 0, 0] ++ List.replicate n 0) = none := by
  have hsize : bigEndian [0, 0, 0, 0, 0, 0x50, 0, 0] = maxPayload := by decide
  have hread := nextFrame_mask64 0x82 [0, 0, 0, 0, 0, 0x50, 0, 0] rfl hsize.le
    (List.replicate n 0)
  refine hread.trans ?_
  rw [hsize]
  unfold readBody
  simp only [if_true, List.length_replicate, List.drop_replicate]
  split
  · rfl
  · rw [if_pos (by omega)]

/-- After the first chunk and some zeros, the first message is delivered and the rest is kept. -/
theorem drain_firstChunk {n : Nat} (hn : n < 4 + maxPayload) :
    ∃ ws', frames.drain Ws.handle { room := [], rooms := Rooms.empty }
      (firstChunk.1 ++ List.replicate n 0) =
        .ok (ws', [0x82, 0xFF, 0, 0, 0, 0, 0, 0x50, 0, 0] ++ List.replicate n 0) := by
  have hnextFrame : ∀ b, frames.next b = nextFrame b := fun _ => rfl
  have hnext := (hnextFrame _).trans (nextFrame_firstChunk (List.replicate n 0))
  have hnone := (hnextFrame _).trans (nextFrame_header hn)
  generalize [0x82, 0xFF, 0, 0, 0, 0, 0, 0x50, 0, 0] ++ List.replicate n (0 : UInt8) = left at *
  generalize unmask [0, 0, 0, 0] (List.replicate 4078 0x20) = payload at hnext
  have hhandle : ∃ ws', Ws.handle { room := [], rooms := Rooms.empty } (.frame ⟨true, 0x1, payload⟩) =
      .ok ws' := ⟨_, rfl⟩
  obtain ⟨ws', hhandle⟩ := hhandle
  refine ⟨ws', ?_⟩
  rw [Incremental.drain_of_some hnext, hhandle]
  dsimp only [Except.bind]
  rw [Incremental.drain_of_none hnone]

/-- Two legal frames, the second one of which is refused because of the first. -/
theorem loop_ne_frameByFrame : ¬ ∀ (ws : Ws) (chunks : List Chunk),
    ws.loop chunks = ws.frameByFrame (chunks.map Subtype.val).flatten := by
  intro h
  have hfits := (loop_eq_frameByFrame_iff { room := [], rooms := Rooms.empty } twoFrames).mp (h _ _)
  have hprefix : firstChunk.1 :: List.replicate 1280 zeroChunk.1 <+: twoFrames.map Subtype.val := by
    rw [twoFrames, List.map_cons, List.map_append, List.map_replicate]
    exact List.cons_prefix_cons.mpr ⟨rfl, List.prefix_append _ _⟩
  have hmax : maxPayload = 5242880 := rfl
  obtain ⟨n, hn⟩ : ∃ n, 1280 * 4096 = n := ⟨_, rfl⟩
  have hflatten : (firstChunk.1 :: List.replicate 1280 zeroChunk.1).flatten =
      firstChunk.1 ++ List.replicate n 0 := by
    rw [List.flatten_cons, zeroChunk, List.flatten_replicate_replicate, hn]
  obtain ⟨ws', hdrain⟩ := drain_firstChunk (n := n) (by omega)
  rw [← hflatten, ← List.nil_append (firstChunk.1 :: List.replicate 1280 zeroChunk.1).flatten]
    at hdrain
  have hlength := hfits _ hprefix ws' _ hdrain
  rw [List.length_append, List.length_replicate, hmax] at hlength
  simp only [List.length_cons, List.length_nil] at hlength
  omega

end ExamVan.Websocket
