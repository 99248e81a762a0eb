import ExamVan.Api.BodyFields
import ExamVan.Http.Router
import ExamVan.Lib.Double
import ExamVan.Lib.Upsert
import ExamVan.Queue.RoundTrip

/-!
# Packages

`list_packages` writes the rows of `package_settings` as a JSON array with the sizes in megabytes, and
`save_packages` writes the objects of such an array back. A database is connected and takes every
statement whose numbers fit their columns. There is no result where the conversion of a size is
undefined.
-/

namespace ExamVan.Admin

open ByteString Queue Http Api Sql

/-- A row of `package_settings`. -/
structure Package where
  key : Bytes
  label : Bytes
  maxExams : Int32
  maxPdfSize : Int64
  maxConcurrentExams : Int32
  maxStorageSize : Int64
  maxUsers : Int32
  role : Bytes
  deriving DecidableEq

/-! ### The list -/

def megabytes (size : Int64) : Bytes := fixedTwo (nearest size.toInt / 1048576)

def packageObject (p : Package) : Bytes :=
  str "\x7b\"key\":\"" ++ jsonEscape p.key ++ str "\",\"label\":\"" ++ jsonEscape p.label ++
    str "\",\"max_exams\":" ++ intText p.maxExams.toInt ++
    str ",\"max_pdf_size_mb\":" ++ megabytes p.maxPdfSize ++
    str ",\"max_concurrent_exams\":" ++ intText p.maxConcurrentExams.toInt ++
    str ",\"max_storage_mb\":" ++ megabytes p.maxStorageSize ++
    str ",\"max_users\":" ++ intText p.maxUsers.toInt ++
    str ",\"role\":" ++ (if p.role = [] then str "[]" else p.role) ++ str "\x7d"

/-- `packages_json`, with the rows in the order of `updated_at`. -/
def packagesJson (rows : List Package) : Bytes :=
  chr '[' :: ([chr ','].intercalate (rows.map packageObject) ++ [chr ']'])

def listPackages (rows : List Package) : Response :=
  ⟨200, str "\x7b\"success\":true,\"packages\":" ++ packagesJson rows ++ str "\x7d"⟩

/-! ### Reading an object -/

/-- The scalar behind a colon: what stands between quotes, escapes included, or a text without the
blanks around it. -/
def rawScalarAt : Bytes → Bytes
  | [] => []
  | c :: t =>
      if c = chr '"' then
        match scanString t with
        | none => []
        | some r => r.1
      else
        ((c :: t).takeWhile fun c => !(c = chr ',' || c = chr '\x7d' || c = chr ']')).rdropWhile
          isBlank

/-- `json_raw_scalar` -/
def jsonRawScalar (body key : Bytes) : Bytes :=
  memberFrom (fun s => some (rawScalarAt s)) key false false body

/-- `std::atoll(s)` -/
def atoll (s : Bytes) : Int :=
  match strtol s with
  | none => 0
  | some n => max (-2 ^ 63) (min n (2 ^ 63 - 1))

/-- `(long long)x`, where that is defined. -/
def toLongLong (x : ℚ) : Option Int :=
  let n := if x < 0 then ⌈x⌉ else ⌊x⌋
  if -2 ^ 63 ≤ n ∧ n < 2 ^ 63 then some n else none

/-- The bytes of a number of megabytes. Products with a power of two are exact. -/
def sizeField (o name : Bytes) : Option Int :=
  (atof (jsonRawScalar o name)).bind fun mb => toLongLong (mb * 1024 * 1024)

/-- The role as a string, or else the text of an array up to its first bracket. -/
def roleField (o : Bytes) : Bytes :=
  let role := jsonStringField o (str "role")
  if role ≠ [] then role
  else
    match findSub (needle (str "role")) o with
    | none => []
    | some t =>
        let behind :=
          match findByte (· = chr ':') (t.drop (needle (str "role")).length) with
          | some u => u.tail
          -- without a colon `rc+1` is zero
          | none => o
        match behind.dropWhile isBlank with
        | [] => []
        | c :: v =>
            if c = chr '[' ∧ chr ']' ∈ v then (c :: v).takeWhile (· ≠ chr ']') ++ [chr ']'] else []

/-! ### Saving -/

/-- The value of a column of type `INTEGER`; a statement with any other fails. -/
def integerColumn (n : Int) : Option Int32 :=
  if -2 ^ 31 ≤ n ∧ n < 2 ^ 31 then some (Int32.ofInt n) else none

/-- The row that an object is written as, if its statement is taken. -/
def packageOf (o : Bytes) (pdf storage : Int) : Option Package := do
  let maxExams ← integerColumn (atoll (jsonRawScalar o (str "max_exams")))
  let maxConcurrentExams ← integerColumn (atoll (jsonRawScalar o (str "max_concurrent_exams")))
  let maxUsers ← integerColumn (atoll (jsonRawScalar o (str "max_users")))
  return {
    key := jsonStringField o (str "key")
    label := jsonStringField o (str "label")
    maxExams
    maxPdfSize := Int64.ofInt pdf
    maxConcurrentExams
    maxStorageSize := Int64.ofInt storage
    maxUsers
    role := roleField o }

/-- The loop over the objects, with the number of rows saved. -/
def saveObjects : List Bytes → Nat → List Package → Option (Nat × List Package)
  | [], saved, rows => some (saved, rows)
  | o :: objs, saved, rows =>
      if jsonStringField o (str "key") = [] then saveObjects objs saved rows
      else do
        let pdf ← sizeField o (str "max_pdf_size_mb")
        let storage ← sizeField o (str "max_storage_mb")
        match packageOf o pdf storage with
        | none => saveObjects objs saved rows
        | some p => saveObjects objs (saved + 1) (put Package.key rows p)

/-- The loop that cuts out the objects. Behind an object it leaves out a byte. Every round consumes one,
so the length of the text is fuel enough. -/
def objectTexts : Nat → Bytes → List Bytes
  | 0, _ => []
  | _, [] => []
  | fuel + 1, c :: t =>
      if c = chr '\x7b' then
        match bracketText (chr '\x7b') (chr '\x7d') 0 false false (c :: t) with
        | none => []
        | some o => o :: objectTexts fuel ((c :: t).drop (o.length + 1))
      else objectTexts fuel t

/-- `save_packages` -/
def savePackages (body : Bytes) (rows : List Package) : Option (Response × List Package) :=
  match findSub (needle (str "packages")) body with
  | none => some (failure 400 (str "packages required"), rows)
  | some t =>
      match findByte (· = chr '[') t with
      | none => some (failure 400 (str "packages harus array"), rows)
      | some u =>
          let objs := objectTexts u.length u
          if objs = [] then some (failure 400 (str "tidak ada paket"), rows)
          else do
            let (saved, rows) ← saveObjects objs 0 rows
            if saved = 0 then
              return (failure 500 (str "Gagal menyimpan pengaturan paket"), rows)
            return (⟨200, str "\x7b\"success\":true,\"ok\":true,\"message\":\"Pengaturan paket " ++
              str "berhasil disimpan\"\x7d"⟩, rows)

/-- The body that sends the list back as it came. -/
def sentBack (rows : List Package) : Bytes :=
  str "\x7b\"packages\":" ++ packagesJson rows ++ str "\x7d"

/-- Saving the list leaves the rows as they were, their order aside. -/
def StaysUnchanged (rows : List Package) : Prop :=
  ∃ r saved, savePackages (sentBack rows) rows = some (r, saved) ∧ saved.Perm rows

end ExamVan.Admin
