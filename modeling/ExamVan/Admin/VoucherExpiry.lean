import ExamVan.Helpers.PgTimes

/-!
# When new vouchers expire

`create_voucher` and `create_vouchers_batch` check the form field `expires_at` and send it to the
database as it is. The check looks for a date that ends in its year, and an empty text is no
`timestamptz`, so neither of the documented formats nor an empty field makes a voucher.
-/

namespace ExamVan.Admin

open ByteString Calendar Queue Http Api Helpers Indexed

/-! ### Rows -/

/-- The values of a package of its own. -/
structure CustomColumns where
  label : Bytes := []
  role : Bytes := []
  maxExams : Int := 0
  maxConcurrent : Int := 0
  maxPdf : Int := 0
  maxStorage : Int := 0
  maxUsers : Int := 0
  deriving DecidableEq

/-- The parameters of an INSERT but the expiry. -/
structure VoucherColumns where
  code : Bytes
  package : Bytes
  durationType : Bytes
  maxUsage : Int32
  notes : Bytes
  createdBy : Bytes
  /-- not sent by a batch -/
  custom : Option (Bool × CustomColumns) := none
  deriving DecidableEq

structure VoucherRow where
  columns : VoucherColumns
  /-- in nanoseconds, as `system_clock` counts them -/
  expiresAt : Option Int
  deriving DecidableEq

/-- The database and the conversions that are not read here: the input and output of `timestamptz`,
whether an INSERT of the other columns is taken next to rows with these codes, SQL's `UPPER`, and the
numbers of a custom package. -/
structure VoucherPg where
  timestamptzIn : Bytes → Option Int
  timestamptzOut : Int → Bytes
  accepts : VoucherColumns → List Bytes → Bool
  sqlUpper : Bytes → Bytes
  readCustom : StringMap → CustomColumns

/-- What `exec_params` passes on of a parameter: a C string. -/
def cString (s : Bytes) : Bytes := s.takeWhile (· ≠ 0)

def codes (table : List VoucherRow) : List Bytes := table.map fun row => row.columns.code

/-- `INSERT INTO vouchers … $5::timestamptz …`; no parameter is null. -/
def VoucherPg.insert (pg : VoucherPg) (columns : VoucherColumns) (expiresAt : Bytes)
    (table : List VoucherRow) : Option (List VoucherRow) :=
  match pg.timestamptzIn (cString expiresAt) with
  | none => none
  | some t => if pg.accepts columns (codes table) then some (table ++ [⟨columns, some t⟩]) else none

/-! ### The handlers -/

/-- `valid_expires_at` -/
def validExpiresAt (s : Bytes) : Bool :=
  let digitAt := fun i : Nat => isDigit (s[i]?.getD 0)
  let byteAt := fun (i : Nat) (c : Char) => decide (s[i]?.getD 0 = chr c)
  if s = [] then true
  else if s.length < 16 then false
  else if !(digitAt 0 && digitAt 1 && byteAt 2 '-' && digitAt 3 && digitAt 4 && byteAt 5 '-' &&
      digitAt 6 && digitAt 7 && digitAt 8 && digitAt 9) then false
  else if !(byteAt 10 ' ' || byteAt 10 'T') then false
  else digitAt 11 && digitAt 12 && byteAt 13 ':' && digitAt 14 && digitAt 15

def orDefault (value default : Bytes) : Bytes := if value = [] then default else value

/-- `max_usage`: a number, and one at least. -/
def maxUsageOf (form : StringMap) : Int32 :=
  let n := (stoi (orDefault (getParam form (str "max_usage")) (str "1"))).getD 1
  if n < 1 then 1 else n

def createdByText (uid : Int32) : Bytes := if 0 < uid then intText uid.toInt else str "NULL"

def badExpiry : Response :=
  failure 400 (str "Format tanggal kedaluwarsa tidak valid " ++ [0xE2, 0x80, 0x94] ++
    str " gunakan YYYY-MM-DD HH:MM")

/-- The code that a request asks for, in upper case. -/
def codeOf (body : Bytes) : Bytes :=
  let code := getParam (parseForm body) (str "code")
  (if code = [] then jsonStringField body (str "code") else code).map toupper

/-- The columns of a single voucher. -/
def singleColumns (pg : VoucherPg) (req : Http.Request) : VoucherColumns :=
  let form := parseForm req.body
  let package := orDefault (getParam form (str "package")) (str "free")
  let custom := pg.readCustom form
  { code := codeOf req.body
    package := if package = str "custom" then custom.label else package
    durationType := orDefault (getParam form (str "duration_type")) (str "bulanan")
    maxUsage := maxUsageOf form
    notes := getParam form (str "notes")
    createdBy := createdByText (sessionAdminIdFrom req)
    custom := some (if package = str "custom" then (true, custom) else (false, {})) }

/-- `create_voucher`, with the database in reach. -/
def createVoucher (pg : VoucherPg) (req : Http.Request) (table : List VoucherRow) :
    Response × List VoucherRow :=
  let expiresAt := getParam (parseForm req.body) (str "expires_at")
  let columns := singleColumns pg req
  if columns.code = [] then (failure 400 (str "code wajib diisi"), table)
  else if !validExpiresAt expiresAt then (badExpiry, table)
  else if 64 < columns.code.length then (failure 400 (str "Kode voucher terlalu panjang"), table)
  else if table.any fun row => pg.sqlUpper row.columns.code = pg.sqlUpper columns.code then
    (failure 400 (str "Kode voucher sudah digunakan"), table)
  else
    match pg.insert columns expiresAt table with
    | none => (failure 500 (str "Gagal menyimpan voucher"), table)
    | some table =>
        (⟨200, str "\x7b\"success\":true,\"ok\":true,\"message\":\"Voucher berhasil dibuat\"\x7d"⟩,
          table)

/-- The number of vouchers of a batch. -/
def countOf (form : StringMap) : Nat :=
  let n := ((stoi (getParam form (str "count"))).getD 10).toInt
  if n < 1 then 1 else if 500 < n then 500 else n.toNat

/-- The columns of a voucher of a batch, by its token. -/
def batchColumns (req : Http.Request) (token : Bytes) : VoucherColumns :=
  let form := parseForm req.body
  { code := (getParam form (str "prefix")).map toupper ++ token
    package := orDefault (getParam form (str "package")) (str "free")
    durationType := orDefault (getParam form (str "duration_type")) (str "bulanan")
    maxUsage := maxUsageOf form
    notes := getParam form (str "notes")
    createdBy := createdByText (sessionAdminIdFrom req) }

/-- The loop of a batch: every INSERT is on its own, and the ones that are taken are counted. -/
def insertBatch (pg : VoucherPg) (expiresAt : Bytes) :
    List VoucherColumns → Nat × List VoucherRow → Nat × List VoucherRow
  | [], acc => acc
  | columns :: rest, (created, table) =>
      match pg.insert columns expiresAt table with
      | none => insertBatch pg expiresAt rest (created, table)
      | some table => insertBatch pg expiresAt rest (created + 1, table)

/-- `create_vouchers_batch`, with the database in reach and the tokens that are generated. -/
def createVouchersBatch (pg : VoucherPg) (req : Http.Request) (token : Nat → Bytes)
    (table : List VoucherRow) : Response × List VoucherRow :=
  let expiresAt := getParam (parseForm req.body) (str "expires_at")
  if !validExpiresAt expiresAt then (badExpiry, table)
  else
    let columns := (List.range (countOf (parseForm req.body))).map fun i => batchColumns req (token i)
    let (created, table) := insertBatch pg expiresAt columns (0, table)
    if created = 0 then (failure 500 (str "Database tidak tersedia"), table)
    else
      (⟨200, str "\x7b\"success\":true,\"ok\":true,\"created\":" ++ natText created ++
        str ",\"message\":\"" ++ natText created ++ str " voucher berhasil dibuat\"\x7d"⟩, table)

/-! ### What is documented -/

/-- The instant of a text in one of the two documented formats: local time without seconds, and ISO
time in UTC. -/
inductive Documented (s : Bytes) : Int → Prop
  | wib {t : Civil} (ht : DayTime 59 t) (hsecond : t.second = 0)
      (hs : s = localText t (twoDigits t.hour) (twoDigits t.minute) none) :
      Documented s ((seconds t - 7 * 3600) * 1000000000)
  | iso {t : Civil} (ht : DayTime 59 t) (hs : s = timeText t (chr 'T') none .utc) :
      Documented s (seconds t * 1000000000)
  | isoMinute {t : Civil} (ht : DayTime 59 t) (hsecond : t.second = 0)
      (hs : s = dateText t ++ chr 'T' :: (twoDigits t.hour ++ chr ':' :: (twoDigits t.minute ++
        [chr 'Z']))) : Documented s (seconds t * 1000000000)

/-- A request of one of the two kinds. -/
inductive Creation
  | single (req : Http.Request)
  | batch (req : Http.Request) (token : Nat → Bytes)

namespace Creation

def request : Creation → Http.Request
  | single req => req
  | batch req _ => req

/-- The field `expires_at`. -/
def expiresAt (c : Creation) : Bytes := getParam (parseForm c.request.body) (str "expires_at")

/-- The vouchers that are asked for, without their expiry. -/
def wanted (pg : VoucherPg) : Creation → List VoucherColumns
  | single req => [singleColumns pg req]
  | batch req token =>
      (List.range (countOf (parseForm req.body))).map fun i => batchColumns req (token i)

def run (pg : VoucherPg) (table : List VoucherRow) : Creation → List VoucherRow
  | single req => (createVoucher pg req table).2
  | batch req token => (createVouchersBatch pg req token table).2

/-- The rest of the form is in order: an administrator asks, the code is there, not too long and new,
and the database takes the columns one row after the other. -/
structure Fine (pg : VoucherPg) (table : List VoucherRow) (c : Creation) : Prop where
  admin : 0 < sessionAdminIdFrom c.request
  code : ∀ req, c = single req → codeOf req.body ≠ [] ∧ (codeOf req.body).length ≤ 64 ∧
    ∀ row ∈ table, pg.sqlUpper row.columns.code ≠ pg.sqlUpper (codeOf req.body)
  taken : ∀ before columns after, c.wanted pg = before ++ columns :: after →
    pg.accepts columns (codes table ++ before.map VoucherColumns.code) = true

/-- The rows that are wanted, with an expiry. -/
def rows (pg : VoucherPg) (c : Creation) (expiry : Option Int) : List VoucherRow :=
  (c.wanted pg).map fun columns => ⟨columns, expiry⟩

/-- The vouchers are made with the expiry that the field denotes, none for an empty field, and they
are not made for any other text; a row's text is usable until its expiry. -/
structure AsDocumented (pg : VoucherPg) (table : List VoucherRow) (c : Creation) : Prop where
  empty : c.expiresAt = [] → c.run pg table = table ++ c.rows pg none
  valid : ∀ n, Documented c.expiresAt n → c.run pg table = table ++ c.rows pg (some n)
  invalid : c.expiresAt ≠ [] → (¬ ∃ n, Documented c.expiresAt n) → c.run pg table = table
  usable : ∀ added, c.run pg table = table ++ added → ∀ row ∈ added, ∀ (now : Int) (v : Voucher),
    v.expiresAt = row.expiresAt.elim [] pg.timestamptzOut →
      (voucherUsable (fun s => (parsePgOrIsoUtc s).value) now v = true ↔
        v.isActive = true ∧ ∀ n ∈ row.expiresAt, now ≤ n)

end Creation

section

variable {pg : VoucherPg} {table : List VoucherRow} {c : Creation} {s : Bytes} {n : Int}

/-! ### Runs -/

theorem insertBatch_of_none (h : pg.timestamptzIn (cString s) = none) (columns : List VoucherColumns)
    (acc : Nat × List VoucherRow) : insertBatch pg s columns acc = acc := by
  induction columns generalizing acc with
  | nil => rfl
  | cons first rest ih =>
      have hrefused : pg.insert first s acc.2 = none := by rw [VoucherPg.insert, h]
      rw [insertBatch, hrefused]
      exact ih acc

/-- A text that is refused by the check or by the database changes nothing. -/
theorem Creation.run_of_refused
    (h : validExpiresAt c.expiresAt = true → pg.timestamptzIn (cString c.expiresAt) = none) :
    c.run pg table = table := by
  cases c with
  | single req =>
      change (validExpiresAt (getParam (parseForm req.body) (str "expires_at")) = true →
        pg.timestamptzIn (cString (getParam (parseForm req.body) (str "expires_at"))) = none) at h
      change (createVoucher pg req table).2 = table
      unfold createVoucher
      dsimp only
      split_ifs with hcode hvalid
      · rfl
      · rfl
      · rfl
      · rfl
      · rw [VoucherPg.insert, h (by simpa using hvalid)]
  | batch req token =>
      change (validExpiresAt (getParam (parseForm req.body) (str "expires_at")) = true →
        pg.timestamptzIn (cString (getParam (parseForm req.body) (str "expires_at"))) = none) at h
      change (createVouchersBatch pg req token table).2 = table
      unfold createVouchersBatch
      dsimp only
      split_ifs with hvalid hnone
      · rfl
      · rw [insertBatch_of_none (h (by simpa using hvalid))]
      · rw [insertBatch_of_none (h (by simpa using hvalid))]

theorem insertBatch_of_taken (h : pg.timestamptzIn (cString s) = some n) (columns : List VoucherColumns)
    (created : Nat) (htaken : ∀ before first after, columns = before ++ first :: after →
      pg.accepts first (codes table ++ before.map VoucherColumns.code) = true) :
    insertBatch pg s columns (created, table) =
      (created + columns.length, table ++ columns.map fun columns => ⟨columns, some n⟩) := by
  induction columns generalizing created table with
  | nil => simp [insertBatch]
  | cons first rest ih =>
      have hfirst : pg.accepts first (codes table) = true := by
        have haccepts := htaken [] first rest rfl
        rwa [List.map_nil, List.append_nil] at haccepts
      have hinsert : pg.insert first s table = some (table ++ [⟨first, some n⟩]) := by
        rw [VoucherPg.insert, h]
        exact if_pos hfirst
      have hcodes : codes (table ++ [⟨first, some n⟩]) = codes table ++ [first.code] := by
        simp [codes]
      have hnext := @ih (table ++ [⟨first, some n⟩]) (created + 1) (by
        intro before second after hsplit
        rw [hcodes, List.append_assoc]
        exact htaken (first :: before) second after (by rw [hsplit]; rfl))
      rw [insertBatch, hinsert]
      dsimp only
      rw [hnext, List.length_cons]
      refine Prod.ext (by dsimp only; omega) (by simp)

theorem one_le_countOf (form : StringMap) : 1 ≤ countOf form := by
  unfold countOf
  dsimp only
  split_ifs <;> omega

theorem Creation.wanted_ne_nil (pg : VoucherPg) (c : Creation) : c.wanted pg ≠ [] := by
  cases c with
  | single req => exact List.cons_ne_nil _ _
  | batch req token =>
      have hcount := one_le_countOf (parseForm req.body)
      refine fun h => ?_
      have hlength := congrArg List.length h
      simp only [wanted, List.length_map, List.length_range, List.length_nil] at hlength
      omega

/-- A text that both let pass makes every voucher. -/
theorem Creation.run_of_taken (hfine : Fine pg table c) (hvalid : validExpiresAt c.expiresAt = true)
    (h : pg.timestamptzIn (cString c.expiresAt) = some n) :
    c.run pg table = table ++ c.rows pg (some n) := by
  cases c with
  | single req =>
      change validExpiresAt (getParam (parseForm req.body) (str "expires_at")) = true at hvalid
      change pg.timestamptzIn (cString (getParam (parseForm req.body) (str "expires_at"))) = some n at h
      obtain ⟨hne, hshort, hnew⟩ := hfine.code req rfl
      have hcode : (singleColumns pg req).code = codeOf req.body := rfl
      have hdup : ¬ (table.any fun row =>
          pg.sqlUpper row.columns.code = pg.sqlUpper (singleColumns pg req).code) = true := by
        rw [List.any_eq_true]
        rintro ⟨row, hrow, hsame⟩
        exact hnew row hrow (of_decide_eq_true hsame)
      have haccepts : pg.accepts (singleColumns pg req) (codes table) = true := by
        have htaken := hfine.taken [] (singleColumns pg req) [] rfl
        rwa [List.map_nil, List.append_nil] at htaken
      change (createVoucher pg req table).2 = _
      unfold createVoucher
      dsimp only
      rw [hcode] at hdup ⊢
      rw [hvalid, if_neg hne, if_neg (by decide), if_neg (not_lt.mpr hshort), if_neg hdup,
        VoucherPg.insert, h]
      dsimp only
      rw [if_pos haccepts]
      rfl
  | batch req token =>
      change validExpiresAt (getParam (parseForm req.body) (str "expires_at")) = true at hvalid
      change pg.timestamptzIn (cString (getParam (parseForm req.body) (str "expires_at"))) = some n at h
      obtain ⟨columns, hcolumns⟩ : ∃ columns, columns = Creation.wanted pg (.batch req token) := ⟨_, rfl⟩
      have hbatch := @insertBatch_of_taken pg table _ n h columns 0 (hcolumns ▸ hfine.taken)
      have hmany : columns.length ≠ 0 := fun hnil =>
        Creation.wanted_ne_nil pg (.batch req token) (hcolumns ▸ List.length_eq_zero_iff.mp hnil)
      have hrange : (List.range (countOf (parseForm req.body))).map
          (fun i => batchColumns req (token i)) = columns := hcolumns.symm
      change (createVouchersBatch pg req token table).2 = _
      unfold createVouchersBatch
      dsimp only
      rw [hvalid, if_neg (by decide), hrange, hbatch]
      dsimp only
      rw [if_neg (by omega), hcolumns]
      rfl

/-! ### What is documented is refused -/

/-- The third byte of a documented text is a digit of its year. -/
theorem validExpiresAt_documented (h : Documented s n) : validExpiresAt s = false := by
  have hdash : ∀ (t : Civil) (rest : Bytes), (0 ≤ t.year ∧ t.year ≤ 9999) →
      validExpiresAt (dateText t ++ rest) = false := by
    intro t rest hyear
    have hdigit : isDigit (48 + UInt8.ofNat ((t.year % 100).toNat / 10)) = true :=
      isDigit_digitByte (by omega)
    have hthird : (dateText t ++ rest)[2]?.getD 0 = 48 + UInt8.ofNat ((t.year % 100).toNat / 10) := rfl
    have hno : (dateText t ++ rest)[2]?.getD 0 ≠ chr '-' := by
      rw [hthird]
      intro heq
      rw [heq] at hdigit
      cases hdigit
    have hne : dateText t ++ rest ≠ [] := List.cons_ne_nil _ _
    unfold validExpiresAt
    dsimp only
    rw [if_neg hne]
    simp [hno]
  cases h with
  | wib ht hsecond hs =>
      rw [hs]
      exact hdash _ _ ht.year
  | iso ht hs =>
      rw [hs]
      exact hdash _ _ ht.year
  | isoMinute ht hsecond hs =>
      rw [hs]
      exact hdash _ _ ht.year

/-- The expiry is treated as documented exactly for the texts that are neither empty nor documented and
that the check or the database refuses. -/
theorem asDocumented_iff (hempty : pg.timestamptzIn [] = none) (hfine : Creation.Fine pg table c) :
    c.AsDocumented pg table ↔ c.expiresAt ≠ [] ∧ (¬ ∃ n, Documented c.expiresAt n) ∧
      (validExpiresAt c.expiresAt = true → pg.timestamptzIn (cString c.expiresAt) = none) := by
  have hsome : ∀ expiry, table ++ c.rows pg expiry ≠ table := by
    intro expiry h
    have hnil : c.rows pg expiry = [] := List.append_right_eq_self.mp h
    exact c.wanted_ne_nil pg (List.map_eq_nil_iff.mp hnil)
  constructor
  · intro hdoc
    have hne : c.expiresAt ≠ [] := by
      intro h
      have hrefused : c.run pg table = table := Creation.run_of_refused fun _ => by
        rw [h]
        exact hempty
      exact hsome none ((hdoc.empty h).symm.trans hrefused)
    have hno : ¬ ∃ n, Documented c.expiresAt n := by
      rintro ⟨n, hn⟩
      have hrefused : c.run pg table = table := Creation.run_of_refused fun hvalid => by
        rw [validExpiresAt_documented hn] at hvalid
        cases hvalid
      exact hsome _ ((hdoc.valid n hn).symm.trans hrefused)
    refine ⟨hne, hno, fun hvalid => ?_⟩
    cases hin : pg.timestamptzIn (cString c.expiresAt) with
    | none => rfl
    | some n =>
        have htaken := Creation.run_of_taken hfine hvalid hin
        exact absurd (htaken.symm.trans (hdoc.invalid hne hno)) (hsome _)
  · rintro ⟨hne, hno, hrefused⟩
    have hrun : c.run pg table = table := Creation.run_of_refused hrefused
    refine ⟨fun h => absurd h hne, fun n hn => absurd ⟨n, hn⟩ hno, fun _ _ => hrun, ?_⟩
    intro added hadded row hrow
    have hnil : added = [] := List.append_right_eq_self.mp (hadded.symm.trans hrun)
    rw [hnil] at hrow
    cases hrow

/-- A database that takes one time, and every column. -/
def onePg : VoucherPg :=
  { timestamptzIn := fun s => if s = str "2026-05-01 10:00" then some 1777629600000000000 else none
    timestamptzOut := fun _ => str "2026-05-01 10:00:00+00"
    accepts := fun _ _ => true
    sqlUpper := fun s => s.map toupper
    readCustom := fun _ => {} }

/-- An administrator's request for a voucher. -/
def voucherRequest (expiresAt : Bytes) : Http.Request :=
  { headers := OrderedMap.empty.insert (str "X-Internal-Admin-Id") (str "1")
    body := str "code=A&expires_at=" ++ expiresAt }

theorem fine_voucherRequest {expiresAt : Bytes} (hcode : codeOf (voucherRequest expiresAt).body = str "A") :
    Creation.Fine onePg [] (.single (voucherRequest expiresAt)) := by
  have hadmin : 0 < sessionAdminIdFrom (voucherRequest []) := by decide
  refine ⟨hadmin, fun req hreq => ?_, fun _ _ _ _ => rfl⟩
  cases hreq
  rw [hcode]
  exact ⟨by decide, by decide, nofun⟩

theorem asDocumented_noTime :
    (Creation.single (voucherRequest (str "besok"))).AsDocumented onePg [] ∧
      (Creation.single (voucherRequest (str "besok"))).expiresAt = str "besok" := by
  have hfield : (Creation.single (voucherRequest (str "besok"))).expiresAt = str "besok" := by
    decide +kernel
  refine ⟨(asDocumented_iff rfl (fine_voucherRequest (by decide +kernel))).mpr ?_, hfield⟩
  rw [hfield]
  refine ⟨by decide, ?_, by decide⟩
  rintro ⟨n, hn⟩
  have hlength : 16 ≤ (str "besok").length := by
    cases hn with
    | wib ht hsecond hs => exact (congrArg List.length hs).ge
    | iso ht hs => exact (by decide : 16 ≤ 20).trans (congrArg List.length hs).ge
    | isoMinute ht hsecond hs => exact (by decide : 16 ≤ 17).trans (congrArg List.length hs).ge
  exact absurd hlength (by decide)

/-- A documented local time makes no voucher. -/
theorem not_asDocumented : ¬ ∀ (pg : VoucherPg) (table : List VoucherRow) (c : Creation),
    pg.timestamptzIn [] = none → c.Fine pg table → c.AsDocumented pg table := by
  intro hall
  have hfield : (Creation.single (voucherRequest (str "2026-05-01 10:00"))).expiresAt =
      str "2026-05-01 10:00" := by decide +kernel
  have hfine : Creation.Fine onePg [] (.single (voucherRequest (str "2026-05-01 10:00"))) :=
    fine_voucherRequest (by decide +kernel)
  have hdoc := hall onePg [] _ rfl hfine
  have hn : Documented (str "2026-05-01 10:00") ((seconds ⟨2026, 5, 1, 10, 0, 0⟩ - 7 * 3600) * 1000000000) :=
    .wib ⟨by decide, by decide, by decide, by decide, by decide, by decide⟩ rfl (by decide)
  have hmade := hdoc.valid _ (hfield ▸ hn)
  rw [Creation.run_of_refused fun hvalid => absurd hvalid (by rw [hfield]; decide)] at hmade
  exact absurd hmade nofun

end

end ExamVan.Admin
