import ExamVan.Lib.Base64

/-!
# Mail

`send_smtp_message` writes six header lines, an empty line and the body in base64. Names, addresses and the
subject come from users and from the settings.
-/

namespace ExamVan.Helpers

open ByteString

/-! ### The code -/

def tbl : Bytes := str "ABCDEFGHIJKLMNOPQRSTUVWXYZabcdefghijklmnopqrstuvwxyz0123456789+/"

/-- `tbl[(v>>shift)&63]` -/
def tblAt (v shift : Nat) : UInt8 := tbl.getD ((v >>> shift) &&& 63) 0

/-- The two loops that fill `b64`. -/
def bodyBase64 : Bytes → Bytes
  | [] => []
  | [a] =>
      let v := a.toNat <<< 16
      [tblAt v 18, tblAt v 12, chr '=', chr '=']
  | [a, b] =>
      let v := a.toNat <<< 16 ||| b.toNat <<< 8
      [tblAt v 18, tblAt v 12, tblAt v 6, chr '=']
  | a :: b :: c :: s =>
      let v := a.toNat <<< 16 ||| b.toNat <<< 8 ||| c.toNat
      tblAt v 18 :: tblAt v 12 :: tblAt v 6 :: tblAt v 0 :: bodyBase64 s

def crlf : Bytes := str "\r\n"

/-- The loop that wraps the lines; every round takes a byte at least. -/
def wrapLoop : Nat → Bytes → Bytes
  | 0, _ => []
  | fuel + 1, s => if s = [] then [] else s.take 76 ++ crlf ++ wrapLoop fuel (s.drop 76)

def smtpMessage (fromHeader toHeader subject htmlBody : Bytes) : Bytes :=
  let b64 := bodyBase64 htmlBody
  str "From: " ++ fromHeader ++ crlf ++
    (str "To: " ++ toHeader ++ crlf ++
    (str "Subject: " ++ subject ++ crlf ++
    (str "MIME-Version: 1.0\r\n" ++
    (str "Content-Type: text/html; charset=UTF-8\r\n" ++
    (str "Content-Transfer-Encoding: base64\r\n\r\n" ++
    (wrapLoop b64.length b64 ++ str ".\r\n"))))))

def plainEmail (s : Bytes) : Bytes := s.filter fun c => c ≠ chr '\r' ∧ c ≠ chr '\n'

/-- What is handed to `send_via_curl`. -/
structure Delivery where
  host : Bytes
  port : Bytes
  user : Bytes
  password : Bytes
  fromAddr : Bytes
  toAddr : Bytes
  message : Bytes
  deriving DecidableEq

/-- `send_smtp_message`, up to the delivery. -/
def sendSmtpMessage (host port user password senderName toAddr subject htmlBody : Bytes) :
    Except Bytes Delivery :=
  if host = [] ∨ user = [] ∨ toAddr = [] then .error (str "smtp not configured")
  else
    let fromAddr := plainEmail user
    let fromHeader := plainEmail senderName ++ str " <" ++ fromAddr ++ str ">"
    let toHeader := str "<" ++ plainEmail toAddr ++ str ">"
    let message := smtpMessage fromHeader toHeader (plainEmail subject) htmlBody
    .ok { host, port, user, password, fromAddr, toAddr, message }

/-! ### Messages -/

/-- The bytes of a line. -/
def isLineByte (c : UInt8) : Bool := c ≠ chr '\r' && c ≠ chr '\n'

/-- Header lines, and the lines behind the first empty line. -/
structure Message where
  headers : List Bytes
  body : List Bytes
  filled : [] ∉ headers
  unbroken : ∀ line ∈ headers ++ body, ∀ c ∈ line, isLineByte c = true

namespace Message

def text (m : Message) : Bytes := (m.headers ++ [] :: m.body).flatMap (· ++ crlf)

theorem lines_inj {xs ys : List Bytes} (hx : ∀ line ∈ xs, ∀ c ∈ line, isLineByte c = true)
    (hy : ∀ line ∈ ys, ∀ c ∈ line, isLineByte c = true)
    (h : xs.flatMap (· ++ crlf) = ys.flatMap (· ++ crlf)) : xs = ys := by
  have hline : ∀ {line : Bytes} (rest : Bytes), (∀ c ∈ line, isLineByte c = true) →
      (line ++ crlf ++ rest).takeWhile isLineByte = line := by
    intro line rest hl
    rw [List.append_assoc, List.takeWhile_append_of_pos hl]
    exact List.append_nil line
  induction xs generalizing ys with
  | nil =>
      cases ys with
      | nil => rfl
      | cons y ys =>
          have hlength := congrArg List.length h
          simp [crlf, str] at hlength
  | cons x xs ih =>
      rw [List.forall_mem_cons] at hx
      cases ys with
      | nil =>
          have hlength := congrArg List.length h
          simp [crlf, str] at hlength
      | cons y ys =>
          rw [List.forall_mem_cons] at hy
          rw [List.flatMap_cons, List.flatMap_cons] at h
          have hfirst := congrArg (List.takeWhile isLineByte) h
          rw [hline _ hx.1, hline _ hy.1] at hfirst
          rw [hfirst] at h
          rw [hfirst, ih hx.2 hy.2 (List.append_cancel_left h)]

/-- A text is that of one message at most. -/
theorem text_injective : Function.Injective text := by
  rintro ⟨headers, body, hfilled, hunbroken⟩ ⟨headers', body', hfilled', hunbroken'⟩ h
  have hall : ∀ {headers body : List Bytes}, (∀ line ∈ headers ++ body, ∀ c ∈ line, isLineByte c = true) →
      ∀ line ∈ headers ++ [] :: body, ∀ c ∈ line, isLineByte c = true := by
    intro headers body hlines line hmem
    rcases List.mem_append.mp hmem with hmem | hmem
    · exact hlines line (List.mem_append_left _ hmem)
    · rcases List.mem_cons.mp hmem with rfl | hmem
      · exact nofun
      · exact hlines line (List.mem_append_right _ hmem)
  have hfirst : ∀ {headers body : List Bytes}, [] ∉ headers →
      (headers ++ [] :: body).takeWhile (fun line => decide (line ≠ [])) = headers := by
    intro headers body hno
    have hne : ∀ line ∈ headers, decide (line ≠ []) = true := fun line hmem =>
      decide_eq_true fun heq => hno (heq ▸ hmem)
    rw [List.takeWhile_append_of_pos hne, List.takeWhile_cons_of_neg (by simp), List.append_nil]
  have hlines := lines_inj (hall hunbroken) (hall hunbroken') h
  have hheaders := congrArg (List.takeWhile fun line => decide (line ≠ [])) hlines
  rw [hfirst hfilled, hfirst hfilled'] at hheaders
  subst hheaders
  obtain rfl := (List.cons.inj (List.append_cancel_left hlines)).2
  rfl

end Message

/-! ### The body in base64 -/

theorem tblAt_eq (v shift : Nat) : tblAt v shift = Base64.digit (v / 2 ^ shift % 64) := by
  have hall : ∀ n < 64, tbl.getD n 0 = Base64.digit n := by decide +kernel
  have hmask : (v >>> shift) &&& 63 = v / 2 ^ shift % 64 := by
    rw [Nat.shiftRight_eq_div_pow]
    exact Nat.and_two_pow_sub_one_eq_mod _ 6
  rw [tblAt, hmask]
  exact hall _ (Nat.mod_lt _ (by decide))

theorem word_two (a b : UInt8) : a.toNat <<< 16 ||| b.toNat <<< 8 = a.toNat * 65536 + b.toNat * 256 := by
  have hb : b.toNat <<< 8 < 2 ^ 16 := by
    have := b.toNat_lt
    rw [Nat.shiftLeft_eq]
    omega
  rw [← Nat.shiftLeft_add_eq_or_of_lt hb, Nat.shiftLeft_eq, Nat.shiftLeft_eq]

theorem word_three (a b c : UInt8) : a.toNat <<< 16 ||| b.toNat <<< 8 ||| c.toNat =
    a.toNat * 65536 + b.toNat * 256 + c.toNat := by
  have hshift : a.toNat * 65536 + b.toNat * 256 = (a.toNat * 256 + b.toNat) <<< 8 := by
    rw [Nat.shiftLeft_eq]
    omega
  rw [word_two, hshift, ← Nat.shiftLeft_add_eq_or_of_lt c.toNat_lt]

theorem bodyBase64_cons (a b c : UInt8) (s : Bytes) : bodyBase64 (a :: b :: c :: s) =
    tblAt (a.toNat <<< 16 ||| b.toNat <<< 8 ||| c.toNat) 18 ::
      tblAt (a.toNat <<< 16 ||| b.toNat <<< 8 ||| c.toNat) 12 ::
      tblAt (a.toNat <<< 16 ||| b.toNat <<< 8 ||| c.toNat) 6 ::
      tblAt (a.toNat <<< 16 ||| b.toNat <<< 8 ||| c.toNat) 0 :: bodyBase64 s := rfl

/-- The table and the shifts of the code make base64. -/
theorem bodyBase64_eq (s : Bytes) : bodyBase64 s = Base64.encode s := by
  induction s using Base64.groups_induction with
  | nil => rfl
  | one a =>
      have ha := a.toNat_lt
      have h18 : tblAt (a.toNat <<< 16) 18 = Base64.digit (a.toNat / 4) := by
        rw [tblAt_eq, Nat.shiftLeft_eq]
        exact congrArg _ (by omega)
      have h12 : tblAt (a.toNat <<< 16) 12 = Base64.digit (a.toNat % 4 * 16) := by
        rw [tblAt_eq, Nat.shiftLeft_eq]
        exact congrArg _ (by omega)
      rw [Base64.encode_one, ← h18, ← h12]
      rfl
  | two a b =>
      have ha := a.toNat_lt
      have hb := b.toNat_lt
      have h18 : tblAt (a.toNat <<< 16 ||| b.toNat <<< 8) 18 = Base64.digit (a.toNat / 4) := by
        rw [tblAt_eq, word_two]
        exact congrArg _ (by omega)
      have h12 : tblAt (a.toNat <<< 16 ||| b.toNat <<< 8) 12 =
          Base64.digit (a.toNat % 4 * 16 + b.toNat / 16) := by
        rw [tblAt_eq, word_two]
        exact congrArg _ (by omega)
      have h6 : tblAt (a.toNat <<< 16 ||| b.toNat <<< 8) 6 = Base64.digit (b.toNat % 16 * 4) := by
        rw [tblAt_eq, word_two]
        exact congrArg _ (by omega)
      rw [Base64.encode_two, ← h18, ← h12, ← h6]
      rfl
  | cons a b c s ih =>
      have ha := a.toNat_lt
      have hb := b.toNat_lt
      have hc := c.toNat_lt
      rw [Base64.encode_cons, bodyBase64_cons, ih, tblAt_eq, tblAt_eq, tblAt_eq, tblAt_eq, word_three]
      refine congr (congrArg _ (congrArg _ (by omega))) ?_
      refine congr (congrArg _ (congrArg _ (by omega))) ?_
      refine congr (congrArg _ (congrArg _ (by omega))) ?_
      exact congr (congrArg _ (congrArg _ (by omega))) rfl

/-! ### The lines of a message -/

theorem isLineByte_str {s : Bytes} (h : chr '\r' ∉ s ∧ chr '\n' ∉ s) : ∀ c ∈ s, isLineByte c = true := by
  intro c hc
  have hr : c ≠ chr '\r' := fun heq => h.1 (heq ▸ hc)
  have hn : c ≠ chr '\n' := fun heq => h.2 (heq ▸ hc)
  simp [isLineByte, hr, hn]

theorem isLineByte_plainEmail (s : Bytes) : ∀ c ∈ plainEmail s, isLineByte c = true := by
  intro c hc
  simpa [isLineByte] using (List.mem_filter.mp hc).2

theorem isLineByte_of_isDigitOrPad {c : UInt8} (h : Base64.isDigitOrPad c = true) : isLineByte c = true := by
  revert h
  exact forall_byte (p := fun c => Base64.isDigitOrPad c = true → isLineByte c = true)
    (by decide) c

/-- Lines of 76 bytes at most. -/
theorem exists_lines_wrapLoop {n : Nat} {s : Bytes} (h : s.length ≤ n) :
    ∃ lines : List Bytes, wrapLoop n s = lines.flatMap (· ++ crlf) ∧ lines.flatten = s ∧
      ∀ line ∈ lines, line.length ≤ 76 := by
  induction n generalizing s with
  | zero =>
      obtain rfl := List.length_eq_zero_iff.mp (Nat.le_zero.mp h)
      exact ⟨[], rfl, rfl, nofun⟩
  | succ n ih =>
      by_cases hnil : s = []
      · subst hnil
        exact ⟨[], rfl, rfl, nofun⟩
      · have hpos := List.length_pos_of_ne_nil hnil
        have hshort : (s.drop 76).length ≤ n := by
          rw [List.length_drop]
          omega
        obtain ⟨lines, htext, hflat, hlength⟩ := ih hshort
        refine ⟨s.take 76 :: lines, ?_, ?_, ?_⟩
        · rw [wrapLoop, if_neg hnil, htext, List.flatMap_cons]
        · rw [List.flatten_cons, hflat, List.take_append_drop]
        · exact List.forall_mem_cons.mpr ⟨List.length_take_le _ _, hlength⟩

/-- The six lines that are written for these names and addresses. -/
def headerLines (senderName user toAddr subject : Bytes) : List Bytes :=
  [str "From: " ++ (plainEmail senderName ++ str " <" ++ plainEmail user ++ str ">"),
    str "To: " ++ (str "<" ++ plainEmail toAddr ++ str ">"),
    str "Subject: " ++ plainEmail subject,
    str "MIME-Version: 1.0",
    str "Content-Type: text/html; charset=UTF-8",
    str "Content-Transfer-Encoding: base64"]

theorem isLineByte_headerLines (senderName user toAddr subject : Bytes) :
    ∀ line ∈ headerLines senderName user toAddr subject, ∀ c ∈ line, isLineByte c = true := by
  have hmail := isLineByte_plainEmail
  rw [headerLines]
  simp only [List.forall_mem_cons, List.forall_mem_append]
  exact ⟨⟨by decide, ⟨⟨hmail _, by decide⟩, hmail _⟩, by decide⟩,
    ⟨by decide, ⟨by decide, hmail _⟩, by decide⟩, ⟨by decide, hmail _⟩, by decide, by decide, by decide, nofun⟩

/-- Whatever is written into it, the message has the six header lines, and its body is the one that was
given. -/
theorem sendSmtpMessage_intact {host port user password senderName toAddr subject htmlBody : Bytes}
    {delivery : Delivery}
    (h : sendSmtpMessage host port user password senderName toAddr subject htmlBody = .ok delivery) :
    ∃ m : Message, m.text = delivery.message ∧ (∀ m' : Message, m'.text = delivery.message → m' = m) ∧
      m.headers = headerLines senderName user toAddr subject ∧ (∀ line ∈ m.body, line.length ≤ 76) ∧
      Base64.decodeText m.body.flatten = some htmlBody := by
  obtain ⟨lines, htext, hflat, hlength⟩ :=
    exists_lines_wrapLoop (Nat.le_refl (bodyBase64 htmlBody).length)
  have hdigits : ∀ line ∈ lines, ∀ c ∈ line, isLineByte c = true := by
    intro line hline c hc
    have hmem : c ∈ bodyBase64 htmlBody := hflat ▸ List.mem_flatten_of_mem hline hc
    rw [bodyBase64_eq] at hmem
    exact isLineByte_of_isDigitOrPad (Base64.isDigitOrPad_of_mem_encode hmem)
  let m : Message :=
    { headers := headerLines senderName user toAddr subject
      body := lines ++ [str "."]
      filled := by simp [headerLines, str]
      unbroken := by
        rw [List.forall_mem_append, List.forall_mem_append, List.forall_mem_singleton]
        exact ⟨isLineByte_headerLines _ _ _ _, hdigits, by decide⟩ }
  have hmime : str "MIME-Version: 1.0\r\n" = str "MIME-Version: 1.0" ++ crlf := by decide
  have htype : str "Content-Type: text/html; charset=UTF-8\r\n" =
      str "Content-Type: text/html; charset=UTF-8" ++ crlf := by decide
  have hencoding : str "Content-Transfer-Encoding: base64\r\n\r\n" =
      str "Content-Transfer-Encoding: base64" ++ (crlf ++ crlf) := by decide
  have hdot : str ".\r\n" = str "." ++ crlf := by decide
  have hmessage : m.text = delivery.message := by
    unfold sendSmtpMessage at h
    split at h
    · cases h
    · cases h
      simp only [m, Message.text, headerLines, smtpMessage, htext, hmime, htype, hencoding, hdot,
        List.cons_append, List.nil_append, List.flatMap_cons, List.flatMap_append, List.flatMap_nil,
        List.append_assoc, List.append_nil]
  refine ⟨m, hmessage, fun m' hm' => Message.text_injective (hm'.trans hmessage.symm), rfl, ?_, ?_⟩
  · rw [List.forall_mem_append, List.forall_mem_singleton]
    exact ⟨hlength, by decide⟩
  · rw [List.flatten_append, hflat, bodyBase64_eq]
    exact (Base64.decodeText_append _ _ (by decide)).trans (Base64.decodeText_encode _)

/-- A sender name with a line end and a header of its own. -/
theorem sendSmtpMessage_intact_bcc : ∃ delivery : Delivery,
    sendSmtpMessage (str "mail.example") (str "587") (str "ujian@mail.example") (str "rahasia")
        (str "Ujian\r\nBcc: semua@mail.example") (str "siswa@mail.example") (str "Kode") (str "<p>12</p>") =
      .ok delivery ∧
    ∃ m : Message, m.text = delivery.message ∧ (∀ m' : Message, m'.text = delivery.message → m' = m) ∧
      m.headers = headerLines (str "Ujian\r\nBcc: semua@mail.example") (str "ujian@mail.example")
        (str "siswa@mail.example") (str "Kode") ∧
      (∀ line ∈ m.body, line.length ≤ 76) ∧
      Base64.decodeText m.body.flatten = some (str "<p>12</p>") :=
  ⟨_, rfl, @sendSmtpMessage_intact (str "mail.example") (str "587") (str "ujian@mail.example")
    (str "rahasia") _ _ _ _ _ rfl⟩

end ExamVan.Helpers
