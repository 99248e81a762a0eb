import ExamVan.Api.Body
import ExamVan.Db.Pool
import ExamVan.Http.Router
import ExamVan.Services.ExamToken

/-!
# Settings

`update_settings` writes the settings that its body names, one statement each. Whether a setting is
named, where its value stands and how that value is read are three different scans of the body.
`settings_page` writes every setting it reports as JSON, in one of four ways.
-/

namespace ExamVan.Admin.Settings

open ByteString Db Http Queue

/-! ### Reading the body -/

/-- The loop of `json_has_key`, with its two flags. -/
def hasKeyFrom (key : Bytes) : Bool → Bool → Bytes → Bool
  | _, _, [] => false
  | inStr, esc, c :: t =>
      if !inStr && !esc && (Api.afterMember key (c :: t)).isSome then true
      else if esc then hasKeyFrom key inStr false t
      else if c = chr '\\' ∧ inStr then hasKeyFrom key inStr true t
      else if c = chr '"' then hasKeyFrom key (!inStr) false t
      else hasKeyFrom key inStr false t

def jsonHasKey (body key : Bytes) : Bool := hasKeyFrom key false false body

/-- Where a value without quotes ends. -/
def isValueEnd (c : UInt8) : Bool := c = chr ',' || c = chr '}' || c = chr '\n' || c = chr '\r'

/-- `raw_val` -/
def rawVal (body key : Bytes) : Bytes :=
  match findSub (needle key) body with
  | none => []
  | some t =>
      match findByte (· = chr ':') (t.drop (needle key).length) with
      | none => []
      | some u =>
          match u.tail.dropWhile isBlank with
          | [] => []
          | c :: v =>
              if c = chr '"' then Api.jsonStringField body key
              else ExamToken.trim ((c :: v).takeWhile fun b => !isValueEnd b)

def kSettingKeys : List Bytes :=
  ["email_verification_enabled", "email_domain_whitelist", "smtp_host", "smtp_port",
    "smtp_user", "smtp_password", "smtp_sender_name", "default_max_exams",
    "default_max_pdf_size_mb", "default_max_storage_size_mb", "default_max_concurrent_exams",
    "default_active_days", "android_version", "webapp_version", "certificate_fingerprint",
    "seo_title", "seo_description", "seo_keywords", "seo_index", "footer_text",
    "footer_tagline", "voucher_redeem_enabled", "turnstile_enabled", "turnstile_site_key",
    "turnstile_secret_key", "max_accounts_per_ip", "max_approvals_per_exam",
    "approval_cleanup_interval_minutes", "approval_cleanup_ended_grace_hours",
    "approval_cleanup_inactive_ttl_hours", "access_log_retention_days",
    "access_log_retention_interval_minutes"].map str

def isSecret (key : Bytes) : Bool := key = str "smtp_password" || key = str "turnstile_secret_key"

/-- A row to be written: a key and its value. -/
abbrev Write := Bytes × Bytes

/-- One round of the loop that collects the writes. -/
def pendingWrite (body key : Bytes) : Option Write :=
  if !jsonHasKey body key then none
  else if isSecret key && (rawVal body key).contains (chr '*') then none
  else some (key, rawVal body key)

def pendingWrites (body : Bytes) : List Write := kSettingKeys.filterMap (pendingWrite body)

/-! ### Writing -/

/-- What one upsert meets: the pool, the connection it takes out of it, and the statement. -/
structure UpsertEnv where
  pool : PoolOutcome := {}
  acquired : Bool := true
  executed : Bool := true
  deriving DecidableEq

/-- `upsert_setting`: whether the row has been written. -/
def upsertSetting (env : UpsertEnv) : Bool :=
  (withGlobalPg env.pool (fun ok => if !env.acquired then ok else env.executed) false).2

/-- What a request meets. No key is written twice in a request, so the upserts are told apart by
their keys. -/
structure SettingsEnv where
  pgConfigured : Bool := true
  upserts : Bytes → UpsertEnv := fun _ => {}

/-- The loop over the pending writes: whether it went through, and the rows it wrote. -/
def upsertAll (env : SettingsEnv) : List Write → Bool × List Write
  | [] => (true, [])
  | w :: rest =>
      if !env.pgConfigured then upsertAll env rest
      else if !upsertSetting (env.upserts w.1) then (false, [])
      else
        let r := upsertAll env rest
        (r.1, w :: r.2)

def savedResponse : Response :=
  ⟨200, str "\x7b\"success\":true,\"ok\":true,\"message\":\"Pengaturan berhasil disimpan\"\x7d"⟩

/-- `update_settings`, with the rows it writes. -/
def updateSettings (env : SettingsEnv) (body : Bytes) : Response × List Write :=
  match pendingWrites body with
  | [] => (failure 400 (str "tidak ada setting yang valid"), [])
  | pending =>
      let r := upsertAll env pending
      if r.1 then (savedResponse, r.2)
      else (failure 503 (str "Database tidak tersedia"), r.2)

/-! ### The page -/

/-- How `settings_page` shows a setting, with its default. -/
inductive Shown
  | text (default : Bytes)
  | raw (default : Bytes)
  | isOne (default : Bytes)
  | isNotZero (default : Bytes)
  | masked
  | fixed (value : Bytes)
  deriving DecidableEq

def boolText (b : Bool) : Bytes := if b then str "true" else str "false"

def maskToken (t : Bytes) : Bytes := if t = [] then [] else str "****"

/-- The text that the page gives for a key. -/
def Shown.json (table : StringMap) (key : Bytes) : Shown → Bytes
  | text d => quoted ((table.find? key).getD d)
  | raw d => (table.find? key).getD d
  | isOne d => boolText ((table.find? key).getD d = str "1")
  | isNotZero d => boolText ((table.find? key).getD d ≠ str "0")
  | masked => quoted (((table.find? key).map maskToken).getD [])
  | fixed value => value

def footerDefault : Bytes := [0xC2, 0xA9] ++ str " 2026 EXAMVAN Team. All rights reserved."

def reported : List (Bytes × Shown) :=
  [(str "email_verification_enabled", .isOne (str "0")),
    (str "email_domain_whitelist", .text []),
    (str "smtp_host", .text (str "smtp.gmail.com")),
    (str "smtp_port", .raw (str "587")),
    (str "smtp_user", .text []),
    (str "smtp_password", .masked),
    (str "smtp_sender_name", .text (str "EXAMVAN")),
    (str "default_max_exams", .raw (str "3")),
    (str "default_max_concurrent_exams", .raw (str "2")),
    (str "default_max_pdf_size_mb", .raw (str "1")),
    (str "default_max_storage_size_mb", .raw (str "50")),
    (str "storage_free_mb", .fixed (str "10240")),
    (str "default_active_days", .raw (str "14")),
    (str "android_version", .text (str "2.1.9")),
    (str "webapp_version", .text (str "2.1.9")),
    (str "certificate_fingerprint", .text []),
    (str "seo_title", .text []),
    (str "seo_description", .text []),
    (str "seo_keywords", .text []),
    (str "seo_index", .isOne (str "0")),
    (str "footer_text", .text footerDefault),
    (str "footer_tagline", .text []),
    (str "voucher_redeem_enabled", .isNotZero (str "1")),
    (str "turnstile_enabled", .isOne (str "0")),
    (str "turnstile_site_key", .text []),
    (str "turnstile_secret_key", .masked),
    (str "max_accounts_per_ip", .raw (str "3")),
    (str "max_approvals_per_exam", .raw (str "500")),
    (str "approval_cleanup_interval_minutes", .raw (str "15")),
    (str "approval_cleanup_ended_grace_hours", .raw (str "1")),
    (str "approval_cleanup_inactive_ttl_hours", .raw (str "24"))]

/-- The settings object of the page. -/
def settingsJson (table : StringMap) : Bytes :=
  str "\x7b\"success\":true,\"settings\":\x7b" ++
    [chr ','].intercalate (reported.map fun f => member f.1 (f.2.json table f.1)) ++
    str "\x7d\x7d"

/-- `settings_page` for a request that does not ask for protobuf; `html` is its page for browsers. -/
def settingsPage (html : Response) (table : StringMap) (path : Bytes) : Response :=
  if (findSub (str "/api/") path).isSome then
    if (findSub (str "system-apps") path).isSome then
      ⟨200, str "\x7b\"success\":true,\"apps\":[],\"system_apps\":[]\x7d"⟩
    else ⟨200, settingsJson table⟩
  else html

end ExamVan.Admin.Settings
