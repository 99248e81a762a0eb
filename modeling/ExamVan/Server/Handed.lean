import ExamVan.Server.HeaderLines

/-!
# What is handed on

Neither server hands on the query. The body's length and the upgrade are looked for in the text that
has been read, whatever place it has in the request, and a header is found under the name that it was
sent with.
-/

namespace ExamVan.Server

open ByteString Http Queue

variable {s : Sent}

/-! ### The body -/

/-- The number that is found for Content-Length in what has been read. -/
def announcedLength (read : Bytes) : Option Nat :=
  match extractHeader read (str "Content-Length") with
  | [] => none
  | clS => stoul clS

/-- As long as bytes are missing, no chunk brings the body over its limit. -/
def NeverOver (n : Nat) (body : Bytes) (rest : List Chunk) : Prop :=
  ∀ more c after, rest = more ++ c :: after → body.length + (joined more).length < n →
    body.length + (joined more).length + c.1.length ≤ maxBody

/-- The bytes that have come with the headers, and as many of the later ones as are announced, are
the body. -/
def BodyArrives (s : Sent) (read : Bytes) (rest : List Chunk) : Prop :=
  let first := s.body.take (read.length - s.head.length)
  match announcedLength read with
  | none => first = s.body
  | some n => n ≤ maxBody ∧ (first ++ joined rest).take n = s.body ∧ NeverOver n first rest

theorem neverOver_cons {n : Nat} {body : Bytes} {c : Chunk} {rest : List Chunk} :
    NeverOver n body (c :: rest) ↔
      (body.length < n → body.length + c.1.length ≤ maxBody) ∧ NeverOver n (body ++ c.1) rest := by
  constructor
  · intro h
    refine ⟨fun hmissing => ?_, fun more d after hrest hmissing => ?_⟩
    · have hfirst := h [] c rest rfl
      simp only [joined, List.map_nil, List.flatten_nil, List.length_nil, Nat.add_zero] at hfirst
      exact hfirst hmissing
    · rw [List.length_append] at hmissing ⊢
      have hlater := h (c :: more) d after (by rw [hrest]; rfl)
      rw [joined_cons, List.length_append] at hlater
      omega
  · rintro ⟨hfirst, hlater⟩ more d after hrest hmissing
    cases more with
    | nil =>
        obtain ⟨rfl, rfl⟩ := List.cons.inj hrest
        simp only [joined, List.map_nil, List.flatten_nil, List.length_nil, Nat.add_zero]
          at hmissing ⊢
        exact hfirst hmissing
    | cons c' more =>
        obtain ⟨rfl, htail⟩ := List.cons.inj hrest
        have hnext := hlater more d after htail
        rw [joined_cons, List.length_append] at hmissing ⊢
        rw [List.length_append] at hnext
        omega

theorem recvBody_eq_some_iff {n : Nat} {body b : Bytes} {rest : List Chunk} :
    (recvBody n body rest).map (List.take n) = some b ↔
      (body ++ joined rest).take n = b ∧ NeverOver n body rest := by
  induction rest generalizing body with
  | nil =>
      have hnil : NeverOver n body [] := fun more c after h => by simp at h
      simp [recvBody, joined, hnil]
  | cons c rest ih =>
      rw [recvBody, neverOver_cons, joined_cons, ← List.append_assoc]
      by_cases hmissing : body.length < n
      · by_cases hover : maxBody < body.length + c.1.length
        · simp [hmissing, hover]
        · simp only [hmissing, if_true, hover, if_false, ih, true_implies]
          simp [Nat.not_lt.mp hover]
      · have hlong : n ≤ body.length := Nat.not_lt.mp hmissing
        have hnever : NeverOver n (body ++ c.1) rest := by
          intro more d after _ hless
          rw [List.length_append] at hless
          omega
        have htake : (body ++ c.1 ++ joined rest).take n = body.take n := by
          rw [List.append_assoc, List.take_append_of_le_length hlong]
        rw [htake]
        simp [hmissing, hnever]

theorem bodySoFar_take (s : Sent) (n : Nat) :
    bodySoFar (s.wire.take n) = s.body.take (n - s.head.length) := by
  unfold bodySoFar
  rw [s.findSub_crlf2_take]
  by_cases hall : s.head.length ≤ n
  · have hfour : 4 ≤ s.head.length := by
      have htwo := two_le_length_linesText s.headers
      have hline : 2 ≤ s.requestLine.length := by simp [Sent.requestLine_eq, crlf]
      rw [s.length_head_eq]
      omega
    have hcount : n - (s.head.length - 4) - 4 = n - s.head.length := by omega
    have hdrop : (crlf2 ++ s.body).drop 4 = s.body := rfl
    rw [if_pos hall]
    change ((crlf2 ++ s.body).take (n - (s.head.length - 4))).drop 4 = _
    rw [List.drop_take, hdrop, hcount]
  · have hzero : n - s.head.length = 0 := by omega
    rw [if_neg hall, hzero, List.take_zero]

theorem readBody_eq_some_iff {n : Nat} {rest : List Chunk} (hn : n ≤ s.wire.length) :
    readBody (s.wire.take n) rest = some s.body ↔ BodyArrives s (s.wire.take n) rest := by
  have hsmall : ∀ b : Option Bytes,
      b.filter (fun body => !(maxBody < body.length : Bool)) = some s.body ↔ b = some s.body := by
    intro b
    rw [Option.filter_eq_some_iff, and_iff_left_iff_imp]
    intro _
    simpa using s.small
  unfold readBody announcedBody BodyArrives announcedLength
  rw [hsmall, bodySoFar_take, List.length_take_of_le hn]
  dsimp only
  generalize extractHeader (s.wire.take n) (str "Content-Length") = clS
  cases clS with
  | nil => exact Option.some_inj
  | cons c t =>
      dsimp only
      generalize stoul (c :: t) = announced
      cases announced with
      | none => exact Option.some_inj
      | some cl =>
          by_cases hlarge : maxBody < cl
          · simp [hlarge, Nat.not_le.mpr hlarge]
          · simp only [hlarge, if_false, Nat.not_lt.mp hlarge, true_and]
            exact recvBody_eq_some_iff

/-! ### The first line -/

theorem first_line_take {n : Nat} (hn : s.method.length + 1 + s.target.length < n) :
    ∃ tail, s.wire.take n = s.method ++ chr ' ' :: (s.target ++ chr ' ' :: tail) := by
  obtain ⟨m, rfl⟩ : ∃ m, n = s.method.length + (s.target.length + (m + 1) + 1) :=
    ⟨n - s.method.length - s.target.length - 2, by omega⟩
  have hwire : s.wire = s.method ++ chr ' ' :: (s.target ++ chr ' ' ::
      (str "HTTP/1.1" ++ crlf ++ (linesText s.headers ++ s.body))) := by
    have hversion : str " HTTP/1.1" = chr ' ' :: str "HTTP/1.1" := by decide
    rw [s.wire_eq, Sent.firstLine, hversion]
    simp [List.append_assoc]
  exact ⟨_, by rw [hwire, List.take_length_add_append, List.take_succ_cons,
    List.take_length_add_append, List.take_succ_cons]⟩

theorem Sent.space_notMem_method (s : Sent) : ∀ c ∈ s.method, decide (c = chr ' ') = false :=
  fun c hc => decide_eq_false (ne_of_isTokenByte (s.methodToken.2 c hc)).1

theorem Sent.space_notMem_target (s : Sent) : ∀ c ∈ s.target, decide (c = chr ' ') = false := by
  intro c hc
  refine decide_eq_false ?_
  rintro rfl
  exact absurd (s.visible_target _ hc) (by decide)

theorem findByte_eq_none {p : UInt8 → Bool} {w : Bytes} (h : ∀ c ∈ w, p c = false) :
    findByte p w = none := by
  rw [← List.append_nil w, findByte_append h]
  rfl

theorem findByte_skip {p : UInt8 → Bool} {w : Bytes} {c : UInt8} (h : ∀ c ∈ w, p c = false)
    (hc : p c = true) (t : Bytes) : findByte p (w ++ c :: t) = some (c :: t) := by
  rw [findByte_append h, findByte_cons_pos hc]

theorem takeWhile_ne {w : Bytes} {c : UInt8} (h : ∀ b ∈ w, decide (b = c) = false) (t : Bytes) :
    (w ++ c :: t).takeWhile (fun b => decide (b ≠ c)) = w :=
  (takeWhile_ne_append (fun hmem => of_decide_eq_false (h c hmem) rfl) t).1

/-- The path is what stands before the question mark. -/
theorem Sent.path_of_target (s : Sent) :
    s.target.takeWhile (fun b => decide (b ≠ chr '?')) = s.path := by
  have hmark : ∀ b ∈ s.path, decide (b = chr '?') = false := fun b hb =>
    decide_eq_false (s.pathText b hb).2.2
  unfold Sent.target
  split
  next =>
    rw [List.append_nil]
    exact List.takeWhile_eq_self_iff.mpr fun b hb => by simpa using hmark b hb
  next q _ => exact takeWhile_ne hmark q

theorem handleClient_of_short (serves : Bytes → Bool) {chunks rest : List Chunk} {n : Nat}
    (hread : recvHead [] chunks = (s.wire.take n, rest))
    (hn : n ≤ s.method.length + 1 + s.target.length) : handleClient serves chunks = .closed := by
  have hwire : s.wire.take n = (s.method ++ chr ' ' :: s.target).take n := by
    have hversion : str " HTTP/1.1" = chr ' ' :: str "HTTP/1.1" := by decide
    have happend : s.wire = (s.method ++ chr ' ' :: s.target) ++ (str " HTTP/1.1" ++ crlf ++
        (linesText s.headers ++ s.body)) := by
      rw [s.wire_eq, Sent.firstLine]
      simp [List.append_assoc]
    rw [happend, List.take_append_of_le_length]
    rw [List.length_append, List.length_cons]
    omega
  unfold handleClient
  rw [hread, hwire]
  dsimp only
  by_cases hmethod : n ≤ s.method.length
  · rw [List.take_append_of_le_length hmethod,
      findByte_eq_none fun c hc => s.space_notMem_method c (List.mem_of_mem_take hc)]
  · obtain ⟨m, rfl⟩ : ∃ m, n = s.method.length + (m + 1) := ⟨n - s.method.length - 1, by omega⟩
    rw [List.take_length_add_append, List.take_succ_cons,
      findByte_skip s.space_notMem_method (by simp)]
    dsimp only [List.tail_cons]
    rw [findByte_eq_none fun c hc => s.space_notMem_target c (List.mem_of_mem_take hc)]

/-- A request whose first line has come so far is taken apart at its spaces. -/
theorem handleClient_of_line (serves : Bytes → Bool) {chunks rest : List Chunk} {n : Nat}
    (hread : recvHead [] chunks = (s.wire.take n, rest))
    (hn : s.method.length + 1 + s.target.length < n) :
    handleClient serves chunks =
      if serves s.path then .served
      else if isWsUpgrade (s.wire.take n) && (str "/ws/").isPrefixOf s.path then .webSocket
      else match readBody (s.wire.take n) rest with
        | none => .tooLarge
        | some body => .dispatched
            { method := s.method
              path := s.path
              headers := parseHeaders (s.wire.take n)
              body := body } := by
  obtain ⟨tail, htake⟩ := first_line_take hn
  generalize s.wire.take n = req at hread htake ⊢
  have hfirst : findByte (· = chr ' ') req = some (chr ' ' :: (s.target ++ chr ' ' :: tail)) := by
    rw [htake]
    exact findByte_skip s.space_notMem_method (by simp) _
  have hsecond : findByte (· = chr ' ') (s.target ++ chr ' ' :: tail) = some (chr ' ' :: tail) :=
    findByte_skip s.space_notMem_target (by simp) _
  have hmethod : req.takeWhile (fun b => decide (b ≠ chr ' ')) = s.method := by
    rw [htake]
    exact takeWhile_ne s.space_notMem_method _
  have htarget : (s.target ++ chr ' ' :: tail).takeWhile (fun b => decide (b ≠ chr ' ')) =
      s.target := takeWhile_ne s.space_notMem_target _
  unfold handleClient
  simp only [hread, hfirst, List.tail_cons, hsecond, hmethod, htarget, s.path_of_target] <;> rfl

/-! ### What arrives -/

structure RequestArrives (s : Sent) (read : Bytes) (rest : List Chunk) : Prop where
  query : s.query.getD [] = []
  headers : ∀ h ∈ s.headers,
    lastValue (received (read.length - s.requestLine.length) s.headers) (standardName h.name) =
      some h.value
  body : BodyArrives s read rest

/-- The first line has been read up to its second space, and the request is for a file or a
WebSocket, or arrives as it was sent. -/
def Arrives (serves : Bytes → Bool) (s : Sent) (chunks : List Chunk) : Prop :=
  ∃ read rest, Stops s chunks read rest ∧ s.method.length + 1 + s.target.length < read.length ∧
    (serves s.path = true ∨ (isWsUpgrade read = true ∧ str "/ws/" <+: s.path) ∨
      RequestArrives s read rest)

/-- What uWebSockets brings of a request is handed on. -/
def UwsArrives (static : Bytes → StaticFile) (s : Sent) : Prop :=
  (isStaticPath s.path = true ∧ static s.path ≠ .absent) ∨
    (s.query.getD [] = [] ∧ (∀ c ∈ s.method, toupper c = c) ∧
      (s.method = str "GET" → s.path = str "/api/health" → s.body = []))

/-! ### Where the reading of the headers stopped -/

theorem stops_unique {chunks rest rest' : List Chunk} {read read' : Bytes}
    (h : Stops s chunks read rest) (h' : Stops s chunks read' rest') :
    read = read' ∧ rest = rest' := by
  -- a later stop would have read past the first one
  have hnot : ∀ {before before' : List Chunk} {c : Chunk} {more : List Chunk},
      before' = before ++ c :: more →
      (s.head.length ≤ (joined (before ++ [c])).length ∨ 16384 < (joined (before ++ [c])).length) →
      (joined before').length < s.head.length → (joined before').length ≤ 16384 → False := by
    rintro before before' c more rfl henough hshort hsmall
    rw [List.append_cons, joined_append, List.length_append] at hshort hsmall
    omega
  obtain ⟨before, c, hchunks, rfl, hshort, hsmall⟩ := h.arrived
  obtain ⟨before', c', hchunks', rfl, hshort', hsmall'⟩ := h'.arrived
  have heq : before ++ c :: rest = before' ++ c' :: rest' := hchunks.symm.trans hchunks'
  rcases List.append_eq_append_iff.mp heq with ⟨more, hbefore, hrest⟩ | ⟨more, hbefore, hrest⟩
  · cases more with
    | nil =>
        rw [List.append_nil] at hbefore
        obtain ⟨rfl, rfl⟩ := List.cons.inj hrest
        exact ⟨by rw [hbefore], rfl⟩
    | cons d more =>
        obtain ⟨rfl, -⟩ := List.cons.inj hrest
        exact (hnot hbefore h.enough hshort' hsmall').elim
  · cases more with
    | nil =>
        rw [List.append_nil] at hbefore
        obtain ⟨rfl, rfl⟩ := List.cons.inj hrest
        exact ⟨by rw [hbefore], rfl⟩
    | cons d more =>
        obtain ⟨rfl, -⟩ := List.cons.inj hrest
        exact (hnot hbefore h'.enough hshort hsmall).elim

theorem Delivery.stops (d : Delivery s) :
    Stops s d.chunks (recvHead [] d.chunks).1 (recvHead [] d.chunks).2 := by
  have hpos : 0 < s.head.length := by
    rw [s.length_head]
    omega
  exact recvHead_stops [] d.chunks d.complete hpos (Nat.zero_le _)

theorem Stops.read_eq {d : Delivery s} {read : Bytes} {rest : List Chunk}
    (h : Stops s d.chunks read rest) : read = s.wire.take read.length := by
  obtain ⟨before, c, hchunks, rfl, -, -⟩ := h.arrived
  refine List.prefix_iff_eq_take.mp ?_
  have hsplit : before ++ c :: rest = before ++ [c] ++ rest := List.append_cons _ _ _
  have hjoined := joined_append (before ++ [c]) rest
  rw [← d.complete, hchunks, hsplit, hjoined]
  exact List.prefix_append _ _

/-- Where all headers have been read, the body arrives if it was there with them or its length is
announced, with nothing too large. -/
theorem bodyArrives_of_head {d : Delivery s} {read : Bytes} {rest : List Chunk}
    (h : Stops s d.chunks read rest) (hhead : s.head.length ≤ read.length) :
    BodyArrives s read rest ↔
      match announcedLength read with
      | none => s.head.length + s.body.length = read.length
      | some n => s.body.length ≤ n ∧ n ≤ maxBody := by
  obtain ⟨before, c, hchunks, hjoin, -, -⟩ := h.arrived
  have hsplit : read ++ joined rest = s.wire := by
    rw [hjoin, ← joined_append, ← List.append_cons, ← hchunks, d.complete]
  have hlength := congrArg List.length hsplit
  rw [List.length_append, s.length_wire] at hlength
  have hwhole : s.body.take (read.length - s.head.length) ++ joined rest = s.body := by
    have hdrop := congrArg (List.drop s.head.length) hsplit
    rw [Sent.wire, List.drop_left, List.drop_append_of_le_length hhead] at hdrop
    have hfirst : read.drop s.head.length = s.body.take (read.length - s.head.length) := by
      rw [← hdrop, List.take_left' (List.length_drop)]
    rw [← hfirst, hdrop]
  unfold BodyArrives
  dsimp only
  split
  next =>
    rw [List.take_eq_self_iff]
    omega
  next n _ =>
    rw [hwhole, List.take_eq_self_iff]
    constructor
    · rintro ⟨hmax, hle, -⟩
      exact ⟨hle, hmax⟩
    · rintro ⟨hle, hmax⟩
      refine ⟨hmax, hle, fun more c after hrest _ => ?_⟩
      have hsmall := s.small
      rw [← hwhole, hrest, joined_append, joined_cons] at hsmall
      simp only [List.length_append] at hsmall
      omega

/-! ### The two servers -/

theorem handleClient_all_iff (serves : Bytes → Bool) (d : Delivery s) :
    (handleClient serves d.chunks).All (HandedOn s) ↔ Arrives serves s d.chunks := by
  have hstops := d.stops
  have hread := hstops.read_eq
  have hle : (recvHead [] d.chunks).1.length ≤ s.wire.length := by
    rw [hread]
    exact List.length_take_le' _ _
  have hpair : recvHead [] d.chunks =
      (s.wire.take (recvHead [] d.chunks).1.length, (recvHead [] d.chunks).2) :=
    Prod.ext hread rfl
  have harrives : Arrives serves s d.chunks ↔
      s.method.length + 1 + s.target.length < (recvHead [] d.chunks).1.length ∧
        (serves s.path = true ∨
          (isWsUpgrade (recvHead [] d.chunks).1 = true ∧ str "/ws/" <+: s.path) ∨
          RequestArrives s (recvHead [] d.chunks).1 (recvHead [] d.chunks).2) := by
    constructor
    · rintro ⟨read, rest, h, hline⟩
      obtain ⟨rfl, rfl⟩ := stops_unique h hstops
      exact hline
    · exact fun hline => ⟨_, _, hstops, hline⟩
  rw [harrives]
  generalize (recvHead [] d.chunks).2 = rest at hpair ⊢
  generalize (recvHead [] d.chunks).1 = read at hread hle hpair ⊢
  by_cases hline : s.method.length + 1 + s.target.length < read.length
  · rw [handleClient_of_line serves hpair hline, ← hread, and_iff_right hline]
    by_cases hserves : serves s.path = true
    · simp [hserves, Outcome.All]
    · by_cases hws : isWsUpgrade read = true ∧ str "/ws/" <+: s.path
      · have htest : (isWsUpgrade read && (str "/ws/").isPrefixOf s.path) = true := by
          simpa [List.isPrefixOf_iff_prefix] using hws
        rw [if_neg hserves, if_pos htest]
        exact iff_of_true trivial (.inr (.inl hws))
      · have htest : (isWsUpgrade read && (str "/ws/").isPrefixOf s.path) = false :=
          Bool.eq_false_iff.mpr fun h => hws (by simpa [List.isPrefixOf_iff_prefix] using h)
        have hbody : readBody read rest = some s.body ↔ BodyArrives s read rest := by
          rw [hread]
          exact readBody_eq_some_iff hle
        have hheaders : ∀ name, (parseHeaders read).find? name =
            lastValue (received (read.length - s.requestLine.length) s.headers) name := fun name => by
          conv_lhs => rw [hread]
          exact find?_parseHeaders s read.length name
        simp only [hserves, htest, hws, Bool.false_eq_true, if_false, false_or]
        cases hbodyRead : readBody read rest with
        | none =>
            refine iff_of_false not_false fun harrived => ?_
            rw [hbody.mpr harrived.body] at hbodyRead
            cases hbodyRead
        | some body =>
            constructor
            · rintro ⟨⟨-, -, hquery, hsame⟩, hfound⟩
              refine ⟨hquery.symm, fun h hh => ?_, hbody.mp (hbodyRead.trans (congrArg some hsame))⟩
              rw [← hheaders]
              exact hfound h hh
            · rintro ⟨hquery, hfound, harrived⟩
              have hsame : body = s.body :=
                Option.some.inj (hbodyRead.symm.trans (hbody.mpr harrived))
              refine ⟨⟨rfl, rfl, hquery.symm, hsame⟩, fun h hh => ?_⟩
              rw [hheaders]
              exact hfound h hh
  · rw [handleClient_of_short serves hpair (Nat.not_lt.mp hline)]
    exact iff_of_false not_false fun h => hline h.1

theorem onData_eq (pieces : List Bytes) (body last : Bytes)
    (h : (body ++ pieces.flatten ++ last).length ≤ maxBody) :
    onData body last pieces = some (body ++ pieces.flatten ++ last) := by
  induction pieces generalizing body with
  | nil =>
      rw [List.flatten_nil, List.append_nil] at h ⊢
      rw [onData, if_neg (Nat.not_lt.mpr h)]
  | cons c pieces ih =>
      rw [List.flatten_cons, ← List.append_assoc] at h ⊢
      have hpart : (body ++ c).length ≤ maxBody := by
        refine le_trans ?_ h
        simp only [List.length_append]
        omega
      rw [onData, if_neg (Nat.not_lt.mpr hpart), ih _ h]

theorem toupper_tolower (c : UInt8) : toupper (tolower c) = toupper c :=
  forall_byte (p := fun c => toupper (tolower c) = toupper c) (by decide) c

theorem toupper_toupper (c : UInt8) : toupper (toupper c) = toupper c :=
  forall_byte (p := fun c => toupper (toupper c) = toupper c) (by decide) c

/-- The library lowers the letters of the method and the handler raises them again. -/
theorem raised_method (s : Sent) :
    (s.method.map tolower).map toupper = s.method ↔ ∀ c ∈ s.method, toupper c = c := by
  rw [List.map_map]
  constructor
  · intro h c hc
    obtain ⟨b, -, rfl⟩ := List.mem_map.mp (h ▸ hc)
    exact toupper_toupper _
  · intro h
    refine (List.map_congr_left fun c hc => ?_).trans (List.map_id _)
    exact (toupper_tolower c).trans (h c hc)

theorem uwsHandle_all_iff (static : Bytes → StaticFile) (u : UwsDelivery s) :
    (uwsHandle static u.request).All (SameRequest s) ↔ UwsArrives static s := by
  unfold uwsHandle UwsArrives
  rw [u.method, u.url]
  by_cases hhealth : s.method.map tolower = str "get" ∧ s.path = str "/api/health"
  · have hraised : (s.method.map tolower).map toupper = str "GET" := by
      rw [hhealth.1]
      decide
    have hstatic : isStaticPath s.path = false := by
      rw [hhealth.2]
      decide
    rw [if_pos hhealth, hstatic]
    constructor
    · rintro ⟨hmethod, -, hquery, hbody⟩
      refine .inr ⟨hquery.symm, (raised_method s).mp (hraised.trans hmethod), fun _ _ => hbody.symm⟩
    · rintro (⟨h, -⟩ | ⟨hquery, hupper, hempty⟩)
      · cases h
      · have hmethod : s.method = str "GET" := ((raised_method s).mpr hupper).symm.trans hraised
        exact ⟨hmethod.symm, hhealth.2.symm, hquery.symm, (hempty hmethod hhealth.2).symm⟩
  · rw [if_neg hhealth]
    by_cases hstatic : isStaticPath s.path = true ∧ static s.path ≠ .absent
    · rw [if_pos hstatic]
      exact iff_of_true trivial (.inl hstatic)
    · have hbody : onData [] u.request.last u.request.pieces = some s.body := by
        have hjoin := onData_eq u.request.pieces [] u.request.last
        rw [List.nil_append, u.complete] at hjoin
        exact hjoin s.small
      rw [if_neg hstatic, hbody, or_iff_right hstatic]
      constructor
      · rintro ⟨hmethod, -, hquery, -⟩
        refine ⟨hquery.symm, (raised_method s).mp hmethod, fun hget hpath => ?_⟩
        have hlower : s.method.map tolower = str "get" := by
          rw [hget]
          decide
        exact absurd ⟨hlower, hpath⟩ hhealth
      · rintro ⟨hquery, hupper, -⟩
        exact ⟨(raised_method s).mpr hupper, rfl, hquery.symm, rfl⟩

/-- Both servers hand a request on as it was sent exactly if it arrives so at both. -/
theorem frontEnd_handsOn_iff (serves : Bytes → Bool) (static : Bytes → StaticFile) (s : Sent)
    (d : Delivery s) (u : UwsDelivery s) :
    ((handleClient serves d.chunks).All (HandedOn s) ∧
        (uwsHandle static u.request).All (SameRequest s)) ↔
      Arrives serves s d.chunks ∧ UwsArrives static s :=
  and_congr (handleClient_all_iff serves d) (uwsHandle_all_iff static u)

/-! ### A query that is lost -/

def zeroLength : HeaderField where
  name := str "Content-Length"
  lead := [chr ' ']
  value := str "0"
  trail := []
  token := by decide
  blank := by decide
  field := by decide
  trimmed := by constructor <;> rintro c ⟨⟩ <;> rfl

/-- The second page of a list. -/
def secondPage : Sent where
  method := str "GET"
  path := str "/admin/api/users"
  query := some (str "page=2")
  headers := [zeroLength]
  body := []
  absolute := by decide
  methodToken := by decide
  pathText := by decide
  queryText := by
    intro q hq
    obtain rfl : str "page=2" = q := Option.some.inj hq
    decide
  announced := ⟨zeroLength, List.mem_singleton_self _, by decide⟩
  length := by
    intro h hh _
    obtain rfl := List.mem_singleton.mp hh
    decide
  small := Nat.zero_le _

/-- Every byte in one chunk, and nothing after the headers. -/
def secondPageDelivery : Delivery secondPage where
  chunks := [⟨secondPage.wire, by decide +kernel⟩]
  complete := List.append_nil _

def secondPageUws : UwsDelivery secondPage where
  request := ⟨str "get", str "/admin/api/users", fun _ => [], [], []⟩
  method := by decide
  url := rfl
  complete := rfl

theorem not_frontEnd_handsOn : ¬ ∀ (serves : Bytes → Bool) (static : Bytes → StaticFile) (s : Sent)
    (d : Delivery s) (u : UwsDelivery s), (handleClient serves d.chunks).All (HandedOn s) ∧
      (uwsHandle static u.request).All (SameRequest s) := by
  intro h
  have hposix := (h (fun _ => false) (fun _ => .absent) secondPage secondPageDelivery
    secondPageUws).1
  obtain ⟨read, rest, -, -, hserves | ⟨-, hws⟩ | harrives⟩ := (handleClient_all_iff _ _).mp hposix
  · cases hserves
  · exact absurd hws (by decide)
  · exact absurd harrives.query (by decide)

end ExamVan.Server
