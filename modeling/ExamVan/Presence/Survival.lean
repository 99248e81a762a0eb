import ExamVan.Presence.Http
import ExamVan.Presence.Hub
import ExamVan.Queue.RoundTrip

/-!
# Heartbeats through the queue

Both writers escape what they write, but the reader looks for a field by its quoted name. A string
that is the name of a later field, or ends in a quote and that name, sends the reader to the string
written after it. `afterHit` is that string, and the fields come back exactly if every string read in
the place of another one is the same. The hub does not queue the device info at all.
-/

namespace ExamVan.Presence

open ByteString Queue Helpers Utils

/-- The string after the first one that hits the name. -/
def afterHit (name : Bytes) : List Bytes → Option Bytes
  | [] => none
  | s :: rest => if Hits name s then rest.head? else afterHit name rest

/-! ### The members that are written -/

def texts (names strings : List Bytes) : List Member :=
  (names.zip strings).map fun f => (f.1, .text f.2)

/-- The exam first, and then the strings. -/
def written (examId : Int32) (names strings : List Bytes) : List Member :=
  (str "exam_id", .number examId) :: texts names strings

section

variable {name own : Bytes} {examId : Int32} {names strings : List Bytes}

theorem afterHit_singleton (name s : Bytes) : afterHit name [s] = none := by
  rw [afterHit]
  split <;> rfl

theorem plainName_texts (h : ∀ n ∈ names, PlainName n) : ∀ m ∈ texts names strings, PlainName m.1 := by
  intro m hm
  obtain ⟨f, hf, rfl⟩ := List.mem_map.mp hm
  exact h f.1 (List.of_mem_zip hf).1

/-- A field is read in its own place unless a string before it hits its name. -/
theorem readAt_texts {k : Nat} (hname : names[k]? = some name) (hown : strings[k]? = some own)
    (hfirst : name ∉ names.take k) :
    readAt name (texts names strings) =
      some (.text ((afterHit name (strings.take (k + 1))).getD own)) := by
  induction k generalizing names strings with
  | zero =>
      obtain ⟨ns, rfl⟩ : ∃ ns, names = name :: ns := by
        cases names <;> simp_all
      obtain ⟨ss, rfl⟩ : ∃ ss, strings = own :: ss := by
        cases strings <;> simp_all
      rw [texts, List.zip_cons_cons, List.map_cons, readAt, if_pos rfl, List.take_succ_cons, List.take_zero,
        afterHit_singleton]
      rfl
  | succ k ih =>
      cases names with
      | nil => simp at hname
      | cons n ns =>
          cases strings with
          | nil => simp at hown
          | cons s ss =>
              rw [List.getElem?_cons_succ] at hname hown
              rw [List.take_succ_cons, List.mem_cons, not_or] at hfirst
              rw [texts, List.zip_cons_cons, List.map_cons, readAt, if_neg (Ne.symm hfirst.1),
                List.take_succ_cons, afterHit]
              by_cases hhit : Hits name s
              · have hvalue : (Scalar.text s).Hits name := hhit
                rw [if_pos hhit, if_pos hvalue]
                cases ns <;> cases ss <;> simp_all
              · have hvalue : ¬ (Scalar.text s).Hits name := hhit
                rw [if_neg hhit, if_neg hvalue]
                exact ih hname hown hfirst.2

/-- A field that is not written is what comes after the first hit, if there is one. -/
theorem readAt_texts_absent (hlength : names.length = strings.length) (h : name ∉ names) :
    readAt name (texts names strings) = (afterHit name strings).map .text := by
  induction names generalizing strings with
  | nil =>
      obtain rfl : strings = [] := List.length_eq_zero_iff.mp hlength.symm
      rfl
  | cons n ns ih =>
      cases strings with
      | nil => simp at hlength
      | cons s ss =>
          rw [List.mem_cons, not_or] at h
          rw [List.length_cons, List.length_cons, Nat.succ_inj] at hlength
          rw [texts, List.zip_cons_cons, List.map_cons, readAt, if_neg (Ne.symm h.1), afterHit]
          by_cases hhit : Hits name s
          · have hvalue : (Scalar.text s).Hits name := hhit
            rw [if_pos hhit, if_pos hvalue]
            cases ns <;> cases ss <;> simp_all
          · have hvalue : ¬ (Scalar.text s).Hits name := hhit
            rw [if_neg hhit, if_neg hvalue]
            exact ih hlength h.2

theorem readAt_written (h : name ≠ str "exam_id") :
    readAt name (written examId names strings) = readAt name (texts names strings) := by
  rw [written, readAt, if_neg (Ne.symm h), if_neg (by simp [Scalar.Hits])]

theorem textAt_written {k : Nat} (hexam : name ≠ str "exam_id") (hname : names[k]? = some name)
    (hown : strings[k]? = some own) (hfirst : name ∉ names.take k) :
    textAt name (written examId names strings) =
      (afterHit name (strings.take (k + 1))).getD own := by
  rw [textAt, readAt_written hexam, readAt_texts hname hown hfirst]
  rfl

theorem textAt_written_absent (hexam : name ≠ str "exam_id")
    (hlength : names.length = strings.length) (h : name ∉ names) :
    textAt name (written examId names strings) = (afterHit name strings).getD [] := by
  rw [textAt, readAt_written hexam, readAt_texts_absent hlength h]
  cases afterHit name strings <;> rfl

theorem textAt_exam : textAt (str "exam_id") (written examId names strings) = intText examId.toInt := by
  rw [textAt, written, readAt, if_pos rfl]
  rfl

/-- The payload of which every field is what `extract` finds for its name. -/
def fieldsOf (examId : Int32) (ms : List Member) : HeartbeatPayload :=
  { examId
    macAddress := textAt (str "mac_address") ms
    studentName := textAt (str "student_name") ms
    examNumber := textAt (str "exam_number") ms
    studentClass := textAt (str "student_class") ms
    deviceInfo := textAt (str "device_info") ms
    ipAddress := textAt (str "ip_address") ms
    event := textAt (str "event") ms
    lastSeen := textAt (str "last_seen") ms }

theorem parse_objectOf (hnames : ∀ n ∈ names, PlainName n) :
    parseHeartbeatPayload (objectOf (written examId names strings)) =
      some (fieldsOf examId (written examId names strings)) := by
  have hexam : PlainName (str "exam_id") := by decide
  have hplain : ∀ m ∈ written examId names strings, PlainName m.1 :=
    List.forall_mem_cons.mpr ⟨hexam, plainName_texts hnames⟩
  have hread : ∀ name, PlainName name →
      hbExtract (objectOf (written examId names strings)) name =
        textAt name (written examId names strings) :=
    fun name hname => extract_objectOf hname hplain
  have hne : objectOf (written examId names strings) ≠ [] := List.cons_ne_nil _ _
  rw [parseHeartbeatPayload, if_neg hne, hread (str "exam_id") hexam, textAt_exam,
    if_neg (intText_ne_nil _), stoi_intText, hread (str "mac_address") (by decide),
    hread (str "student_name") (by decide), hread (str "exam_number") (by decide),
    hread (str "student_class") (by decide), hread (str "device_info") (by decide),
    hread (str "ip_address") (by decide), hread (str "event") (by decide),
    hread (str "last_seen") (by decide)]
  rfl

theorem getD_eq_self_iff {found : Option Bytes} : found.getD own = own ↔ ∀ s ∈ found, s = own := by
  cases found <;> simp

end

theorem bare_of_unescaped {s : Bytes} (h : Unescaped s) : bare s = quoted s := by
  rw [bare, quoted, jsonEscape_of_unescaped h]

/-! ### What is queued -/

section

variable (r : Report) (ip lastSeen : Bytes)

def httpNames : List Bytes :=
  [str "mac_address", str "student_name", str "exam_number", str "student_class",
    str "device_info", str "ip_address", str "event", str "last_seen"]

def httpStrings : List Bytes :=
  [r.mac, r.studentName, r.examNumber, r.studentClass, r.deviceInfo, ip, str "heartbeat", lastSeen]

def hubNames : List Bytes :=
  [str "mac_address", str "student_name", str "exam_number", str "student_class", str "event",
    str "last_seen"]

def hubStrings : List Bytes :=
  [r.mac, r.studentName, r.examNumber, r.studentClass, str "heartbeat", lastSeen]

theorem queuePayload_eq {lastSeen : Bytes} (h : Unescaped lastSeen) :
    queuePayload r ip (str "heartbeat") lastSeen =
      objectOf (written r.examId httpNames (httpStrings r ip lastSeen)) := by
  simp only [queuePayload, presenceData, List.tail_cons, bare_of_unescaped h,
    bare_of_unescaped (show Unescaped (str "heartbeat") by decide), objectOf, written, httpNames,
    httpStrings, texts, List.zip_cons_cons, List.map_cons, List.zip_nil_left, List.map_nil, membersText, member,
    separator, Scalar.encode, Bool.false_eq_true, if_false, if_true, List.append_assoc,
    List.cons_append, List.nil_append]

theorem hubPayload_eq :
    hubPayload r lastSeen = objectOf (written r.examId hubNames (hubStrings r lastSeen)) := by
  simp only [hubPayload, objectOf, written, hubNames, hubStrings, texts, List.zip_cons_cons, List.map_cons,
    List.zip_nil_left, List.map_nil, membersText, member, separator, Scalar.encode, Bool.false_eq_true,
    if_false, if_true, List.append_assoc, List.cons_append, List.nil_append]

end

/-! ### What comes back -/

/-- The fields of a payload that both writers are given. -/
structure Returns (r : Report) (hb : HeartbeatPayload) : Prop where
  examId : hb.examId = r.examId
  mac : hb.macAddress = r.mac
  studentName : hb.studentName = r.studentName
  examNumber : hb.examNumber = r.examNumber
  studentClass : hb.studentClass = r.studentClass
  deviceInfo : hb.deviceInfo = r.deviceInfo

def HttpSurvives (r : Report) (ip payload : Bytes) : Prop :=
  ∃ hb, parseHeartbeatPayload payload = some hb ∧ Returns r hb ∧ hb.ipAddress = ip ∧
    hb.event = str "heartbeat"

def HubSurvives (r : Report) (payload : Bytes) : Prop :=
  ∃ hb, parseHeartbeatPayload payload = some hb ∧ Returns r hb

/-- Of the strings before the number and before the class, the first that hits the name is followed
by the same string. -/
structure NoneShadowed (r : Report) : Prop where
  examNumber : ∀ s ∈ afterHit (str "exam_number") [r.mac, r.studentName, r.examNumber],
    s = r.examNumber
  studentClass : ∀ s ∈ afterHit (str "student_class")
    [r.mac, r.studentName, r.examNumber, r.studentClass], s = r.studentClass

structure HttpWhole (r : Report) (ip : Bytes) : Prop extends NoneShadowed r where
  deviceInfo : ∀ s ∈ afterHit (str "device_info")
    [r.mac, r.studentName, r.examNumber, r.studentClass, r.deviceInfo], s = r.deviceInfo
  ipAddress : ∀ s ∈ afterHit (str "ip_address")
    [r.mac, r.studentName, r.examNumber, r.studentClass, r.deviceInfo, ip], s = ip
  event : ∀ s ∈ afterHit (str "event")
    [r.mac, r.studentName, r.examNumber, r.studentClass, r.deviceInfo, ip, str "heartbeat"],
    s = str "heartbeat"

/-- The hub does not queue the device info: it has to be empty, or what is read in its place. -/
structure HubWhole (r : Report) : Prop extends NoneShadowed r where
  deviceInfo : (afterHit (str "device_info")
    [r.mac, r.studentName, r.examNumber, r.studentClass, str "heartbeat"]).getD [] = r.deviceInfo

theorem afterHit_pair (name s t : Bytes) : (afterHit name [s, t]).getD t = t := by
  rw [afterHit, afterHit_singleton]
  split <;> rfl

/-- The last string of all sends the reader nowhere. -/
theorem afterHit_concat {name s : Bytes} (h : ¬ Hits name s) (strings : List Bytes) (last : Bytes) :
    afterHit name (strings ++ [s, last]) = afterHit name (strings ++ [s]) := by
  induction strings with
  | nil =>
      rw [List.nil_append, List.nil_append, afterHit, if_neg h, afterHit_singleton,
        afterHit_singleton]
  | cons t strings ih =>
      rw [List.cons_append, List.cons_append, afterHit, afterHit, ih]
      cases strings <;> rfl

/-- Both payloads begin with these four strings. -/
theorem textAt_common (r : Report) (names strings : List Bytes) {ms : List Member}
    (hms : ms = written r.examId
      (str "mac_address" :: str "student_name" :: str "exam_number" :: str "student_class" :: names)
      (r.mac :: r.studentName :: r.examNumber :: r.studentClass :: strings)) :
    (textAt (str "mac_address") ms = r.mac ∧ textAt (str "student_name") ms = r.studentName) ∧
      (textAt (str "exam_number") ms = r.examNumber ∧
          textAt (str "student_class") ms = r.studentClass ↔ NoneShadowed r) := by
  have hat : ∀ (name own : Bytes) (k : Nat), name ≠ str "exam_id" →
      (str "mac_address" :: str "student_name" :: str "exam_number" :: str "student_class" ::
        names)[k]? = some name →
      (r.mac :: r.studentName :: r.examNumber :: r.studentClass :: strings)[k]? = some own →
      name ∉ (str "mac_address" :: str "student_name" :: str "exam_number" ::
        str "student_class" :: names).take k →
      textAt name ms = (afterHit name ((r.mac :: r.studentName :: r.examNumber ::
        r.studentClass :: strings).take (k + 1))).getD own :=
    fun name own k hexam hname hown hfirst => hms ▸ textAt_written hexam hname hown hfirst
  have hnumber := hat (str "exam_number") r.examNumber 2 (by decide) rfl rfl
    (show str "exam_number" ∉ [str "mac_address", str "student_name"] by decide)
  have hclass := hat (str "student_class") r.studentClass 3 (by decide) rfl rfl
    (show str "student_class" ∉ [str "mac_address", str "student_name", str "exam_number"] by
      decide)
  refine ⟨⟨?_, ?_⟩, ?_⟩
  · refine (hat (str "mac_address") r.mac 0 (by decide) rfl rfl (by simp)).trans ?_
    exact congrArg (Option.getD · r.mac) (afterHit_singleton _ _)
  · refine (hat (str "student_name") r.studentName 1 (by decide) rfl rfl ?_).trans ?_
    · exact (show str "student_name" ∉ [str "mac_address"] by decide)
    · exact afterHit_pair _ _ _
  · rw [hnumber, hclass, getD_eq_self_iff, getD_eq_self_iff]
    exact ⟨fun h => ⟨h.1, h.2⟩, fun h => ⟨h.examNumber, h.studentClass⟩⟩

theorem returns_iff (r : Report) (names strings : List Bytes) (ms : List Member)
    (hms : ms = written r.examId
      (str "mac_address" :: str "student_name" :: str "exam_number" :: str "student_class" :: names)
      (r.mac :: r.studentName :: r.examNumber :: r.studentClass :: strings)) :
    Returns r (fieldsOf r.examId ms) ↔
      NoneShadowed r ∧ textAt (str "device_info") ms = r.deviceInfo := by
  obtain ⟨⟨hmac, hname⟩, hshadow⟩ := textAt_common r names strings hms
  constructor
  · intro h
    exact ⟨hshadow.mp ⟨h.examNumber, h.studentClass⟩, h.deviceInfo⟩
  · rintro ⟨hnone, hdevice⟩
    obtain ⟨hnumber, hclass⟩ := hshadow.mpr hnone
    exact ⟨rfl, hmac, hname, hnumber, hclass, hdevice⟩

theorem httpSurvives_iff (r : Report) (ip : Bytes) {lastSeen : Bytes} (h : Unescaped lastSeen) :
    HttpSurvives r ip (queuePayload r ip (str "heartbeat") lastSeen) ↔ HttpWhole r ip := by
  have hat : ∀ (name own : Bytes) (k : Nat), name ≠ str "exam_id" → httpNames[k]? = some name →
      (httpStrings r ip lastSeen)[k]? = some own → name ∉ httpNames.take k →
      textAt name (written r.examId httpNames (httpStrings r ip lastSeen)) =
        (afterHit name ((httpStrings r ip lastSeen).take (k + 1))).getD own :=
    fun name own k => textAt_written
  have hdevice := hat (str "device_info") r.deviceInfo 4 (by decide) rfl rfl (by decide)
  have hip := hat (str "ip_address") ip 5 (by decide) rfl rfl (by decide)
  have hevent := hat (str "event") (str "heartbeat") 6 (by decide) rfl rfl (by decide)
  have hreturns := returns_iff r (httpNames.drop 4)
    [r.deviceInfo, ip, str "heartbeat", lastSeen] (written r.examId httpNames
      (httpStrings r ip lastSeen)) rfl
  rw [hdevice, getD_eq_self_iff] at hreturns
  rw [HttpSurvives, queuePayload_eq r ip h, parse_objectOf (by decide)]
  constructor
  · rintro ⟨hb, hparsed, hall, hipRead, heventRead⟩
    obtain rfl := Option.some.inj hparsed
    obtain ⟨hnone, hdevice⟩ := hreturns.mp hall
    exact ⟨hnone, hdevice, getD_eq_self_iff.mp (hip.symm.trans hipRead),
      getD_eq_self_iff.mp (hevent.symm.trans heventRead)⟩
  · intro hw
    exact ⟨_, rfl, hreturns.mpr ⟨hw.toNoneShadowed, hw.deviceInfo⟩,
      hip.trans (getD_eq_self_iff.mpr hw.ipAddress), hevent.trans (getD_eq_self_iff.mpr hw.event)⟩

theorem hubSurvives_iff (r : Report) (lastSeen : Bytes) :
    HubSurvives r (hubPayload r lastSeen) ↔ HubWhole r := by
  have hlength : hubNames.length = (hubStrings r lastSeen).length := rfl
  have habsent : textAt (str "device_info") (written r.examId hubNames (hubStrings r lastSeen)) =
      (afterHit (str "device_info")
        [r.mac, r.studentName, r.examNumber, r.studentClass, str "heartbeat"]).getD [] := by
    have hevent : ¬ Hits (str "device_info") (str "heartbeat") := by decide
    refine (textAt_written_absent (by decide) hlength (by decide)).trans ?_
    exact congrArg (Option.getD · []) (afterHit_concat hevent
      [r.mac, r.studentName, r.examNumber, r.studentClass] lastSeen)
  have hreturns := returns_iff r (hubNames.drop 4) [str "heartbeat", lastSeen]
    (written r.examId hubNames (hubStrings r lastSeen)) rfl
  rw [habsent] at hreturns
  rw [HubSurvives, hubPayload_eq, parse_objectOf (by decide)]
  constructor
  · rintro ⟨hb, hparsed, hall⟩
    obtain rfl := Option.some.inj hparsed
    obtain ⟨hnone, hdevice⟩ := hreturns.mp hall
    exact ⟨hnone, hdevice⟩
  · intro hw
    exact ⟨_, rfl, hreturns.mpr ⟨hw.toNoneShadowed, hw.deviceInfo⟩⟩

/-- Each writer's heartbeats, and exactly those that come out of the queue as they were reported. -/
theorem heartbeats_survive_iff (payload : Bytes) :
    (∀ r ip now,
        .lpush kHeartbeatQueueKey payload ∈ pushHeartbeatPresence r ip (str "heartbeat") now →
          (HttpSurvives r ip payload ↔ HttpWhole r ip)) ∧
      ∀ parse privileged room message now,
        .lpush kHeartbeatQueueKey payload ∈
            (handleHeartbeat parse privileged room message now).commands →
          ∃ r, heartbeatOf parse privileged room message = some r ∧
            (HubSurvives r payload ↔ HubWhole r) := by
  constructor
  · intro r ip now hpushed
    rw [pushHeartbeatPresence, if_pos rfl, List.mem_pair] at hpushed
    rcases hpushed with hpushed | hpushed
    · cases hpushed
    · obtain ⟨-, rfl⟩ := RedisCommand.lpush.inj hpushed
      exact httpSurvives_iff r ip (unescaped_formatIsoUtc now)
  · intro parse privileged room message now hpushed
    unfold handleHeartbeat at hpushed
    cases hreport : heartbeatOf parse privileged room message with
    | none =>
        rw [hreport] at hpushed
        cases hpushed
    | some r =>
        rw [hreport] at hpushed
        rcases List.mem_pair.mp hpushed with hpushed | hpushed
        · cases hpushed
        · obtain ⟨-, rfl⟩ := RedisCommand.lpush.inj hpushed
          exact ⟨r, rfl, hubSurvives_iff r _⟩

/-- A privileged client reports a device of room 7, its device info with it. -/
def pixelMessage : Bytes :=
  str "\x7b\"mac_address\":\"AA:01\",\"device_info\":\"Pixel\"\x7d"

def pixelReport : Report := { examId := 7, mac := str "AA:01", deviceInfo := str "Pixel" }

theorem heartbeatOf_pixelMessage :
    heartbeatOf (fun _ => none) true (str "7") pixelMessage = some pixelReport := by
  decide +kernel

theorem pushed_pixelMessage (now : Int) :
    .lpush kHeartbeatQueueKey (hubPayload pixelReport (formatIsoUtc now)) ∈
      (handleHeartbeat (fun _ => none) true (str "7") pixelMessage now).commands := by
  unfold handleHeartbeat
  rw [heartbeatOf_pixelMessage]
  exact List.mem_pair.mpr (.inr rfl)

theorem heartbeats_survive_iff_pixel :
    (HttpSurvives pixelReport [] (queuePayload pixelReport [] (str "heartbeat") (formatIsoUtc 0)) ↔
        HttpWhole pixelReport []) ∧
      ∃ r, heartbeatOf (fun _ => none) true (str "7") pixelMessage = some r ∧
        (HubSurvives r (hubPayload pixelReport (formatIsoUtc 0)) ↔ HubWhole r) :=
  ⟨(heartbeats_survive_iff _).1 _ _ 0 (List.mem_pair.mpr (.inr rfl)),
    (heartbeats_survive_iff _).2 _ _ _ _ 0 (pushed_pixelMessage 0)⟩

theorem not_heartbeats_survive :
    ¬ ((∀ r ip now payload,
          .lpush kHeartbeatQueueKey payload ∈ pushHeartbeatPresence r ip (str "heartbeat") now →
            HttpSurvives r ip payload) ∧
        ∀ parse privileged room message now payload,
          .lpush kHeartbeatQueueKey payload ∈
              (handleHeartbeat parse privileged room message now).commands →
            ∃ r, heartbeatOf parse privileged room message = some r ∧ HubSurvives r payload) := by
  rintro ⟨-, hhub⟩
  obtain ⟨r, hr, hsurvives⟩ := hhub _ _ _ _ 0 _ (pushed_pixelMessage 0)
  obtain rfl := Option.some.inj (heartbeatOf_pixelMessage.symm.trans hr)
  have hwhole := (hubSurvives_iff pixelReport (formatIsoUtc 0)).mp hsurvives
  exact absurd hwhole.deviceInfo (by decide)

end ExamVan.Presence
