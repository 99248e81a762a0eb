import ExamVan.Presence.Http
import ExamVan.Presence.Hub

/-!
# One key for a device

Both paths keep the presence of a device under its address, but the hub drops control bytes and outer
blanks from the address and the handlers everything that is not a letter, a digit or one of four
signs. The hub also leaves the escapes of the address as they are where the handlers drop the
backslashes. The keys are the same exactly if what the hub keeps has none of the bytes that the
handlers drop.
-/

namespace ExamVan.Presence

open ByteString Queue Utils Api

/-! ### What the two readers make of a literal -/

/-- A literal without its backslashes. -/
def unslash : Bytes → Bytes
  | [] => []
  | [c] => [c]
  | c :: d :: t => if c = chr '\\' then d :: unslash t else c :: unslash (d :: t)

theorem unslash_cons {c : UInt8} (h : c ≠ chr '\\') (t : Bytes) :
    unslash (c :: t) = c :: unslash t := by
  cases t with
  | nil => rfl
  | cons d t => rw [unslash, if_neg h]

theorem unslash_append {w : Bytes} (h : chr '\\' ∉ w) (t : Bytes) :
    unslash (w ++ t) = w ++ unslash t := by
  induction w with
  | nil => rfl
  | cons c w ih =>
      rw [List.mem_cons, not_or] at h
      rw [List.cons_append, unslash_cons (Ne.symm h.1), ih h.2, List.cons_append]

/-- The hub takes a literal as it is written, the handlers take it without its backslashes. -/
theorem readQuoted_eq (t : Bytes) :
    readQuoted t = (scanString t).map fun r => unslash r.1 := by
  induction t using scanString.induct with
  | case1 => rfl
  | case2 => simp [readQuoted, scanString]
  | case3 d t ih =>
      rw [readQuoted.eq_def, scanString.eq_def]
      simp only [if_true, ih, Option.map_map]
      cases scanString t with
      | none => rfl
      | some r => simp [unslash]
  | case4 t hback =>
      rw [readQuoted.eq_def, scanString.eq_def]
      simp [hback, unslash]
  | case5 c t hback hquote ih =>
      rw [readQuoted.eq_def, scanString.eq_def]
      simp only [hback, hquote, if_false, ih, Option.map_map]
      cases scanString t with
      | none => rfl
      | some r => simp [unslash_cons hback]

/-! ### What the two sanitizers keep -/

section

variable {raw s t : Bytes}

theorem byte_classes (c : UInt8) :
    (isSpace c = true → isMacByte c = false) ∧ (isMacByte c = true → isVisible c = true) :=
  forall_byte (p := fun c => (isSpace c = true → isMacByte c = false) ∧
    (isMacByte c = true → isVisible c = true)) (by decide) c

theorem isMacByte_of_mem_sanitizeMacLikeGo {c : UInt8} (h : c ∈ sanitizeMacLikeGo raw) :
    isMacByte c = true := by
  have hunknown : ∀ c ∈ str "unknown", isMacByte c = true := by decide
  unfold sanitizeMacLikeGo at h
  dsimp only at h
  split at h
  · exact hunknown c h
  · exact (List.mem_filter.mp (List.mem_of_mem_take h)).2

/-- The first bytes are kept if they all pass. -/
theorem take_filter {p : UInt8 → Bool} {n : Nat} (h : ∀ c ∈ s.take n, p c = true) :
    (s.filter p).take n = s.take n := by
  conv_lhs => rw [← List.take_append_drop n s]
  rw [List.filter_append, List.filter_eq_self.mpr h]
  by_cases hlength : n ≤ s.length
  · rw [List.take_append_of_le_length (by rw [List.length_take]; omega), List.take_take, min_self]
  · rw [List.drop_eq_nil_of_le (by omega), List.filter_nil, List.append_nil, List.take_take,
      min_self]

theorem filter_dropWhile_isSpace (s : Bytes) :
    (s.dropWhile isSpace).filter isMacByte = s.filter isMacByte := by
  induction s with
  | nil => rfl
  | cons c s ih =>
      by_cases hc : isSpace c = true
      · rw [List.dropWhile_cons_of_pos hc, ih, List.filter_cons_of_neg]
        simp [(byte_classes c).1 hc]
      · rw [List.dropWhile_cons_of_neg hc]

/-- The blanks around an address are not part of any device address. -/
theorem filter_trimSpaces (s : Bytes) :
    (trimSpaces s).filter isMacByte = s.filter isMacByte := by
  have hback : ∀ t : Bytes, (t.rdropWhile isSpace).filter isMacByte = t.filter isMacByte := by
    intro t
    rw [List.rdropWhile, ← List.reverse_reverse (t.filter isMacByte), ← List.filter_reverse,
      ← filter_dropWhile_isSpace t.reverse, List.filter_reverse]
  rw [trimSpaces, hback, filter_dropWhile_isSpace]

theorem filter_isVisible (s : Bytes) :
    (s.filter isVisible).filter isMacByte = s.filter isMacByte := by
  rw [List.filter_filter]
  refine List.filter_congr fun c _ => ?_
  cases hc : isMacByte c with
  | false => rfl
  | true =>
      rw [(byte_classes c).2 hc]
      rfl

/-- What is left of an address without control bytes and outer blanks. -/
def core (raw : Bytes) : Bytes := trimSpaces (raw.filter isVisible)

theorem filter_core (raw : Bytes) : (core raw).filter isMacByte = raw.filter isMacByte := by
  rw [core, filter_trimSpaces, filter_isVisible]

/-- Both paths keep the whole core, up to its hundredth byte. -/
theorem take_core (h : ∀ c ∈ (core raw).take 100, isMacByte c = true) :
    (raw.filter isMacByte).take 100 = (core raw).take 100 := by
  rw [← filter_core, take_filter h]

/-- From the first backslash on, an address is in the core to its last byte that is not blank. -/
theorem core_backslash {w : Bytes} (t : Bytes) :
    ∃ u, core (w ++ chr '\\' :: t) = (w.filter isVisible).dropWhile isSpace ++ chr '\\' :: u := by
  have hfilter : (w ++ chr '\\' :: t).filter isVisible =
      w.filter isVisible ++ chr '\\' :: t.filter isVisible := by
    rw [List.filter_append, List.filter_cons_of_pos (by decide)]
  have hfront : ∀ a b : Bytes, (a ++ chr '\\' :: b).dropWhile isSpace =
      a.dropWhile isSpace ++ chr '\\' :: b := by
    intro a b
    rw [List.dropWhile_append]
    split
    next hnil =>
      rw [List.isEmpty_iff.mp hnil, List.dropWhile_cons_of_neg (by decide)]
      rfl
    next => rfl
  refine ⟨(t.filter isVisible).rdropWhile isSpace, ?_⟩
  rw [core, hfilter, trimSpaces, hfront, List.rdropWhile, List.reverse_append, List.reverse_cons,
    List.append_assoc, List.singleton_append, hfront]
  simp [List.rdropWhile]

/-- A backslash among the bytes that are compared would stand in the key of the hub only. -/
theorem take_unslash (h : ∀ c ∈ (core raw).take 100, isMacByte c = true) :
    ((unslash raw).filter isMacByte).take 100 = (core raw).take 100 := by
  by_cases hback : chr '\\' ∈ raw
  · obtain ⟨w, t, rfl, hw⟩ := List.eq_append_cons_of_mem hback
    obtain ⟨u, hcore⟩ := core_backslash (w := w) t
    have hwhole : ((w.filter isVisible).dropWhile isSpace).filter isMacByte = w.filter isMacByte := by
      rw [filter_dropWhile_isSpace, filter_isVisible]
    generalize (w.filter isVisible).dropWhile isSpace = b at hcore hwhole
    rw [hcore] at h ⊢
    have hlong : 100 ≤ b.length := by
      by_contra hshort
      have hmem : chr '\\' ∈ (b ++ chr '\\' :: u).take 100 := by
        rw [List.take_append, List.mem_append]
        obtain ⟨n, hn⟩ : ∃ n, 100 - b.length = n + 1 := ⟨99 - b.length, by omega⟩
        rw [hn]
        exact .inr List.mem_cons_self
      exact absurd (h _ hmem) (by decide)
    rw [List.take_append_of_le_length hlong] at h ⊢
    have hkept := take_filter h
    have hkeptLong : 100 ≤ (b.filter isMacByte).length := by
      have hlength := congrArg List.length hkept
      rw [List.length_take, List.length_take] at hlength
      omega
    rw [unslash_append hw, List.filter_append, ← hwhole,
      List.take_append_of_le_length hkeptLong, hkept]
  · have hplain := unslash_append hback []
    rw [unslash, List.append_nil] at hplain
    rw [hplain]
    exact take_core h

/-- An address of which the hub keeps only what the handlers keep: letters, digits and the four
signs, up to the hundredth byte without control bytes and outer blanks. -/
def Ordinary (raw : Bytes) : Prop := ∀ c ∈ (core raw).take 100, isMacByte c = true

instance (raw : Bytes) : Decidable (Ordinary raw) := decidableBytes _ _

/-- What the handlers read of an address that the hub reads as `ws`: the same, or the same without
its backslashes. -/
def SameAddress (ws http : Bytes) : Prop := http = ws ∨ http = unslash ws

theorem sanitize_eq_iff {ws http : Bytes} (hsame : SameAddress ws http)
    (hacts : sanitizeWsMac ws ≠ []) :
    sanitizeWsMac ws = sanitizeMacLikeGo http ↔ Ordinary ws := by
  have hcore : sanitizeWsMac ws = (core ws).take 100 := rfl
  constructor
  · intro h c hc
    rw [← hcore, h] at hc
    exact isMacByte_of_mem_sanitizeMacLikeGo hc
  · intro h
    have hkept : (http.filter isMacByte).take 100 = sanitizeWsMac ws := by
      rcases hsame with rfl | rfl
      · exact take_core h
      · exact take_unslash h
    unfold sanitizeMacLikeGo
    dsimp only
    rw [hkept, if_neg hacts]

end

/-! ### The keys -/

/-- The address that the hub sanitizes; `parse` is the address of a protobuf message. -/
def hubAddress (parse : Bytes → Option Bytes) (payload : Bytes) : Bytes :=
  let pb := if isProtobuf payload then parse payload else none
  match pb with
  | some mac =>
      if sanitizeWsMac mac = [] then extractJsonString payload (str "mac_address") else mac
  | none => extractJsonString payload (str "mac_address")

theorem macAddress_readHeartbeat (parse : Bytes → Option Heartbeat) (payload : Bytes) :
    (readHeartbeat parse payload).macAddress =
      sanitizeWsMac (hubAddress (fun m => (parse m).map Heartbeat.macAddress) payload) := by
  unfold readHeartbeat hubAddress
  by_cases hpb : isProtobuf payload = true
  · simp only [hpb, if_true]
    cases parse payload with
    | none => rfl
    | some h =>
        simp only [Option.map_some, Heartbeat.sanitize]
        split <;> rfl
  · simp only [hpb]
    rfl

theorem readCompleted_eq (parse : Bytes → Option Bytes) (payload : Bytes) :
    readCompleted parse payload = sanitizeWsMac (hubAddress parse payload) := by
  unfold readCompleted hubAddress
  by_cases hpb : isProtobuf payload = true
  · simp only [hpb, if_true]
    cases parse payload with
    | none => rfl
    | some mac =>
        simp only [Option.map_some]
        split <;> rfl
  · simp only [hpb]
    rfl

/-- A key that the hub writes or deletes for an exam and an address. -/
inductive HubKey (examId : Int32) (ws key : Bytes) : Prop
  | heartbeat (parse : Bytes → Option Heartbeat) (privileged : Bool) (room payload : Bytes) (now : Int)
      (value : Bytes) (ex : Nat) (hroom : roomExam room = some examId)
      (haddress : hubAddress (fun m => (parse m).map Heartbeat.macAddress) payload = ws)
      (hset : .set key value ex ∈ (handleHeartbeat parse privileged room payload now).commands)
  | examCompleted (parse : Bytes → Option Bytes) (privileged : Bool) (room payload : Bytes)
      (hroom : roomExam room = some examId) (haddress : hubAddress parse payload = ws)
      (hdel : .del key ∈ (handleExamCompleted parse privileged room payload).commands)

/-- A key that the handlers write or delete for an exam and an address. -/
inductive HttpKey (examId : Int32) (http key : Bytes) : Prop
  | accessLog (admitted : Report → Bool) (now : Int) (req : Http.Request) (value : Bytes) (ex : Nat)
      (hexam : examParam req = some examId) (haddress : httpAddress req.body = http)
      (hset : .set key value ex ∈ accessLog admitted now req)
  | completeExam (admitted : Int32 → Bytes → Bool) (req : Http.Request)
      (hexam : examParam req = some examId) (haddress : httpAddress req.body = http)
      (hdel : .del key ∈ completeExam admitted req)

section

variable {examId : Int32} {ws http key key' : Bytes}

theorem HubKey.eq (h : HubKey examId ws key) :
    key = presenceKey examId (sanitizeWsMac ws) ∧ sanitizeWsMac ws ≠ [] := by
  cases h with
  | heartbeat parse privileged room payload now value ex hroom haddress hset =>
      unfold handleHeartbeat heartbeatOf at hset
      rw [hroom, Option.bind_some] at hset
      simp only [macAddress_readHeartbeat, haddress] at hset
      split at hset
      next => cases hset
      next r hr =>
        split at hr
        next =>
          split at hr
          next => cases hr
          next hne =>
            obtain rfl := Option.some.inj hr
            rcases List.mem_pair.mp hset with hset | hset
            · exact ⟨(RedisCommand.set.inj hset).1, hne⟩
            · cases hset
        next => cases hr
  | examCompleted parse privileged room payload hroom haddress hdel =>
      unfold handleExamCompleted at hdel
      simp only [hroom, readCompleted_eq, haddress] at hdel
      split at hdel
      next =>
        split at hdel
        next => cases hdel
        next hne => exact ⟨RedisCommand.del.inj (List.mem_singleton.mp hdel), hne⟩
      next => cases hdel

theorem HttpKey.eq (h : HttpKey examId http key) :
    key = presenceKey examId (sanitizeMacLikeGo http) := by
  cases h with
  | accessLog admitted now req value ex hexam haddress hset =>
      unfold Presence.accessLog at hset
      simp only [hexam] at hset
      split at hset
      next =>
        rw [pushHeartbeatPresence] at hset
        rcases List.mem_cons.mp hset with hset | hset
        · rw [(RedisCommand.set.inj hset).1, accessReport, haddress]
        · split at hset
          next => cases List.mem_singleton.mp hset
          next => cases hset
      next => cases hset
  | completeExam admitted req hexam haddress hdel =>
      unfold Presence.completeExam at hdel
      simp only [hexam, haddress] at hdel
      split at hdel
      next => cases hdel
      next =>
        split at hdel
        next => exact RedisCommand.del.inj (List.mem_singleton.mp hdel)
        next => cases hdel

theorem presenceKey_inj {a b : Bytes} : presenceKey examId a = presenceKey examId b ↔ a = b := by
  simp [presenceKey]

/-- One device has one key on both paths exactly if its address is ordinary. -/
theorem hubKey_eq_httpKey_iff (hsame : SameAddress ws http) (hhub : HubKey examId ws key)
    (hhttp : HttpKey examId http key') : key = key' ↔ Ordinary ws := by
  obtain ⟨rfl, hacts⟩ := hhub.eq
  rw [hhttp.eq, presenceKey_inj]
  exact sanitize_eq_iff hsame hacts

end

/-- A message that begins with the address as a JSON string, whatever comes after it. -/
def addressMessage (t : Bytes) : Bytes :=
  chr '{' :: (needle (str "mac_address") ++ chr ':' :: chr '"' :: t)

theorem extractJsonString_addressMessage {t lit rest : Bytes} (h : scanString t = some (lit, rest)) :
    extractJsonString (addressMessage t) (str "mac_address") = lit := by
  have hnot : afterMember (str "mac_address") (addressMessage t) = none := by
    rw [afterMember, if_neg]
    simp [addressMessage, needle, List.cons_prefix_cons, show chr '"' ≠ chr '{' by decide]
  have hvalue : (afterMember (str "mac_address")
      (needle (str "mac_address") ++ chr ':' :: chr '"' :: t)).bind literalAt = some lit := by
    rw [afterMember, if_pos (List.prefix_append _ _), List.drop_left]
    exact congrArg (Option.map Prod.fst) h
  have hmember : memberFrom literalAt (str "mac_address") false false
      (needle (str "mac_address") ++ chr ':' :: chr '"' :: t) = lit := by
    rw [needle, List.cons_append] at hvalue ⊢
    rw [memberFrom]
    simp only [Bool.not_false, Bool.and_self, if_true, hvalue]
  rw [extractJsonString, addressMessage, memberFrom, ← addressMessage, hnot]
  exact hmember

/-- Given the same message, the two paths read the same address. -/
theorem sameAddress_addressMessage {t lit rest : Bytes} (h : scanString t = some (lit, rest)) :
    SameAddress (extractJsonString (addressMessage t) (str "mac_address"))
      (jsonStringField (addressMessage t) (str "mac_address")) := by
  have hfind : findSub (needle (str "mac_address")) (addressMessage t) =
      some (needle (str "mac_address") ++ chr ':' :: chr '"' :: t) := by
    rw [addressMessage, needle, findSub_cons_of_ne (by decide), ← needle]
    exact findSub_of_head (List.prefix_append _ _)
  right
  rw [extractJsonString_addressMessage h, jsonStringField]
  simp only [hfind, List.drop_left]
  rw [findByte_cons_pos (by decide)]
  have hquote : (chr '"' :: t).dropWhile Queue.isBlank = chr '"' :: t :=
    List.dropWhile_cons_of_neg (by decide)
  simp only [List.tail_cons, hquote, if_true, readQuoted_eq, h, Option.map_some, Option.getD_some]

/-- A device whose address has a blank in it, in the same message on both paths. -/
def blankMessage : Bytes := addressMessage (str "AA BB\"\x7d")

def blankRequest : Http.Request :=
  { params := OrderedMap.empty.insert (str "exam_id") (str "7")
    body := blankMessage }

theorem hubKey_blankMessage : HubKey 7 (str "AA BB") (presenceKey 7 (str "AA BB")) := by
  refine .examCompleted (fun _ => none) true (str "7") blankMessage ?_ ?_ ?_
  · decide +kernel
  · decide +kernel
  · decide +kernel

theorem httpKey_blankMessage : HttpKey 7 (str "AA BB") (presenceKey 7 (str "AABB")) := by
  refine .completeExam (fun _ _ => true) blankRequest ?_ ?_ ?_
  · decide +kernel
  · decide +kernel
  · decide +kernel

theorem hubKey_eq_httpKey_iff_blank :
    (presenceKey 7 (str "AA BB") = presenceKey 7 (str "AABB") ↔ Ordinary (str "AA BB")) :=
  hubKey_eq_httpKey_iff (.inl rfl) hubKey_blankMessage httpKey_blankMessage

theorem not_hubKey_eq_httpKey :
    ¬ ∀ examId ws http key key', SameAddress ws http → HubKey examId ws key →
      HttpKey examId http key' → key = key' := by
  intro h
  have hsame := h 7 _ _ _ _ (.inl rfl) hubKey_blankMessage httpKey_blankMessage
  exact absurd (presenceKey_inj.mp hsame) (by decide)

example : presenceKey 7 (str "AA BB") ≠ presenceKey 7 (str "AABB") := by decide +kernel

end ExamVan.Presence
