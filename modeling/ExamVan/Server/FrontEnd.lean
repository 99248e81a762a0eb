import ExamVan.Http.Router
import Mathlib.Data.List.DropRight

/-!
# The HTTP front end

`handle_client` reads a request off a socket and takes it apart: the two spaces of the first line,
a search over the whole text for the headers that it needs itself, and a loop over the lines for
those that it hands on. With uWebSockets, that library reads the request, and the handler copies the
headers of a list.
-/

namespace ExamVan.Server

open ByteString Http Queue

def crlf : Bytes := [13, 10]

def crlf2 : Bytes := crlf ++ crlf

/-- `5*1024*1024` -/
def maxBody : Nat := 5 * 1024 * 1024

/-- What one `recv` into a buffer of 8192 bytes returns. -/
abbrev Chunk := { bytes : Bytes // bytes ≠ [] ∧ bytes.length ≤ 8192 }

def joined (chunks : List Chunk) : Bytes := (chunks.map Subtype.val).flatten

def isPad (c : UInt8) : Bool := c = chr ' ' || c = chr '\t'

def isLinePad (c : UInt8) : Bool := c = chr ' ' || c = chr '\t' || c = 13 || c = 10

/-- `find_first_not_of(" \t")`, `find_last_not_of(" \t\r\n")` and the text between them. Where the
second finds nothing, the length `ee-s+1` wraps around. -/
def trimLine (s : Bytes) : Bytes :=
  let t := s.dropWhile isPad
  if t.all isLinePad then if t.length = s.length then [] else t
  else t.rdropWhile isLinePad

/-- The text up to the next line end. -/
def untilCrlf (s : Bytes) : Bytes :=
  match findSub crlf s with
  | none => s
  | some t => s.take (s.length - t.length)

/-- `extract_header` -/
def extractHeader (req name : Bytes) : Bytes :=
  match findSub (name ++ [chr ':']) req with
  | some t => trimLine (untilCrlf (t.drop (name.length + 1)))
  | none =>
      match findSub (name ++ [chr ' ', chr ':']) req with
      | some t => trimLine (untilCrlf (t.drop (name.length + 2)))
      | none => []

/-- `is_ws_upgrade` -/
def isWsUpgrade (req : Bytes) : Bool :=
  (extractHeader req (str "Upgrade")).map tolower = str "websocket"

/-- The loop that reads until the headers are there, or too much; with the chunks still to come. -/
def recvHead (req : Bytes) : List Chunk → Bytes × List Chunk
  | [] => (req, [])
  | c :: rest =>
      let req := req ++ c.1
      if (findSub crlf2 req).isSome then (req, rest)
      else if 16384 < req.length then (req, rest)
      else recvHead req rest

/-- The loop that reads the rest of a body; `none` is the answer 413. -/
def recvBody (cl : Nat) (body : Bytes) : List Chunk → Option Bytes
  | [] => some body
  | c :: rest =>
      if body.length < cl then
        if maxBody < body.length + c.1.length then none else recvBody cl (body ++ c.1) rest
      else some body

/-- The body, as far as it has come with the headers. -/
def bodySoFar (req : Bytes) : Bytes :=
  match findSub crlf2 req with
  | none => []
  | some t => t.drop 4

/-- The body as far as its announced length; `none` is the answer 413. -/
def announcedBody (req : Bytes) (rest : List Chunk) : Option Bytes :=
  match extractHeader req (str "Content-Length") with
  | [] => some (bodySoFar req)
  | clS =>
      match stoul clS with
      | none => some (bodySoFar req)
      | some cl =>
          if maxBody < cl then none
          else (recvBody cl (bodySoFar req) rest).map (List.take cl)

def readBody (req : Bytes) (rest : List Chunk) : Option Bytes :=
  (announcedBody req rest).filter fun body => !(maxBody < body.length : Bool)

/-- The lines of a text. -/
def lines (s : Bytes) : List Bytes :=
  match s with
  | [] => []
  | c :: t =>
      match t with
      | d :: u => if c = 13 ∧ d = 10 then [] :: lines u else
          match lines (d :: u) with
          | [] => [[c]]
          | l :: ls => (c :: l) :: ls
      | [] => [[c]]

/-- A header line: its name and value. -/
def headerOf (line : Bytes) : Option (Bytes × Bytes) :=
  match findByte (· = chr ':') line with
  | none => none
  | some t =>
      let name := line.takeWhile (· ≠ chr ':')
      if name.all isPad then none
      else some (trimLine name, trimLine t.tail)

/-- The lines between the first line end and the end of the headers. -/
def headerText (req : Bytes) : Bytes :=
  match findSub crlf req with
  | none => []
  | some t =>
      let text := t.drop 2
      match findSub crlf2 req with
      | none => text
      | some u => text.take (text.length - u.length)

def parseHeaders (req : Bytes) : StringMap :=
  OrderedMap.empty.insertAll
    (((lines (headerText req)).takeWhile (· ≠ [])).filterMap headerOf)

/-- What becomes of a connection. -/
inductive Outcome
  | closed
  | served
  | webSocket
  | tooLarge
  | dispatched (r : Request)

/-- `handle_client`; `serves` tells the paths that `try_serve_static` answers. -/
def handleClient (serves : Bytes → Bool) (chunks : List Chunk) : Outcome :=
  let (req, rest) := recvHead [] chunks
  match findByte (· = chr ' ') req with
  | none => .closed
  | some t =>
      match findByte (· = chr ' ') t.tail with
      | none => .closed
      | some _ =>
          let path := (t.tail.takeWhile (· ≠ chr ' ')).takeWhile (· ≠ chr '?')
          if serves path then .served
          else if isWsUpgrade req && (str "/ws/").isPrefixOf path then .webSocket
          else
            match readBody req rest with
            | none => .tooLarge
            | some body => .dispatched
                { method := req.takeWhile (· ≠ chr ' ')
                  path := path
                  headers := parseHeaders req
                  body := body }

/-! ### uWebSockets -/

/-- What the library gives of a request; header names are in lower case and an absent header is
empty. -/
structure UwsRequest where
  method : Bytes
  url : Bytes
  header : Bytes → Bytes
  /-- what comes before the piece that is marked as the last one -/
  pieces : List Bytes
  last : Bytes

/-- The `onData` handler. -/
def onData (body : Bytes) (last : Bytes) : List Bytes → Option Bytes
  | [] => if maxBody < (body ++ last).length then none else some (body ++ last)
  | c :: rest => if maxBody < (body ++ c).length then none else onData (body ++ c) last rest

/-- The headers that are handed on, each with the name that it is read from. -/
def forwarded : List (Bytes × Bytes) :=
  [("Cookie", "cookie"), ("X-App-Version", "x-app-version"), ("Origin", "origin"),
    ("X-CSRF-Token", "x-csrf-token"), ("Accept", "accept"),
    ("X-Requested-With", "x-requested-with"), ("Content-Type", "content-type"),
    ("Idempotency-Key", "idempotency-key"), ("X-Exam-Token", "x-exam-token"),
    ("X-Forwarded-For", "x-forwarded-for"), ("X-Real-IP", "x-real-ip"), ("X-User", "x-user"),
    ("X-Version", "x-version"), ("X-Forwarded-Proto", "x-forwarded-proto"),
    ("X-Forwarded-Host", "x-forwarded-host"), ("X-Device-Id", "x-device-id"),
    ("Authorization", "authorization"), ("User-Agent", "user-agent"),
    ("Referer", "referer")].map fun e => (str e.1, str e.2)

/-- The value that is handed on under a name; the CSRF token has a second header. -/
def forwardedValue (u : UwsRequest) (e : Bytes × Bytes) : Bytes :=
  if e.2 = str "x-csrf-token" ∧ u.header e.2 = [] then u.header (str "x-xsrf-token")
  else u.header e.2

def forwardedHeaders (u : UwsRequest) : StringMap :=
  OrderedMap.empty.insertAll
    (forwarded.filterMap fun e =>
      if forwardedValue u e = [] then none else some (e.1, forwardedValue u e))

/-- What the static branch makes of a path: refused, a file, or not there. -/
inductive StaticFile
  | unsafePath
  | file
  | absent
  deriving DecidableEq

def isStaticPath (path : Bytes) : Bool :=
  (str "/static/").isPrefixOf path || (str "/proto/").isPrefixOf path || path = str "/favicon.ico"

/-- The handlers for `/api/health` and for every path. -/
def uwsHandle (static : Bytes → StaticFile) (u : UwsRequest) : Outcome :=
  if u.method = str "get" ∧ u.url = str "/api/health" then
    .dispatched { method := str "GET", path := str "/api/health" }
  else if isStaticPath u.url ∧ static u.url ≠ .absent then .served
  else
    match onData [] u.last u.pieces with
    | none => .tooLarge
    | some body => .dispatched
        { method := u.method.map toupper
          path := u.url
          headers := forwardedHeaders u
          body := body }

end ExamVan.Server

/-!
## Requests as they are sent

A request with its headers and a body whose length they announce, and the ways in which its bytes
reach the two servers. What a request is handed on as is compared with what was sent.
-/

namespace ExamVan.Server

open ByteString Http Queue

/-- The bytes of methods and header names. -/
def isTokenByte (c : UInt8) : Bool :=
  isDigit c || (chr 'a' ≤ c && c ≤ chr 'z') || (chr 'A' ≤ c && c ≤ chr 'Z') ||
    c ∈ str "!#$%&'*+-.^_|~" || c = 0x60

/-- The bytes of header values. -/
def isFieldByte (c : UInt8) : Bool := c = 9 || (0x20 ≤ c && c ≠ 0x7F)

/-- A header, with the blanks around its value. -/
structure HeaderField where
  name : Bytes
  lead : Bytes
  value : Bytes
  trail : Bytes
  token : name ≠ [] ∧ ∀ c ∈ name, isTokenByte c = true
  blank : ∀ c ∈ lead ++ trail, isPad c = true
  field : ∀ c ∈ value, isFieldByte c = true
  trimmed : (∀ c ∈ value.head?, isPad c = false) ∧ ∀ c ∈ value.getLast?, isPad c = false

namespace HeaderField

/-- What stands behind the colon. -/
def rest (h : HeaderField) : Bytes := h.lead ++ h.value ++ h.trail

def line (h : HeaderField) : Bytes := h.name ++ chr ':' :: h.rest

end HeaderField

structure Sent where
  method : Bytes
  path : Bytes
  query : Option Bytes := none
  headers : List HeaderField
  body : Bytes
  absolute : path.head? = some (chr '/')
  methodToken : method ≠ [] ∧ ∀ c ∈ method, isTokenByte c = true
  pathText : ∀ c ∈ path, 0x20 < c ∧ c ≠ 0x7F ∧ c ≠ chr '?'
  queryText : ∀ q ∈ query, ∀ c ∈ q, 0x20 < c ∧ c ≠ 0x7F
  announced : ∃ h ∈ headers, h.name.map tolower = str "content-length"
  length : ∀ h ∈ headers, h.name.map tolower = str "content-length" →
    h.value = natText body.length
  small : body.length ≤ maxBody

namespace Sent

def target (s : Sent) : Bytes :=
  s.path ++ match s.query with
    | none => []
    | some q => chr '?' :: q

def requestLine (s : Sent) : Bytes :=
  s.method ++ chr ' ' :: (s.target ++ str " HTTP/1.1") ++ crlf

def headerLines (s : Sent) : Bytes := s.headers.flatMap fun h => h.line ++ crlf

/-- Everything up to the body. -/
def head (s : Sent) : Bytes := s.requestLine ++ s.headerLines ++ crlf

def wire (s : Sent) : Bytes := s.head ++ s.body

end Sent

/-- The bytes of a request as the chunks that `recv` returns. -/
structure Delivery (s : Sent) where
  chunks : List Chunk
  complete : joined chunks = s.wire

/-- What uWebSockets gives of a request: the method in lower case, the path and the body in pieces. -/
structure UwsDelivery (s : Sent) where
  request : UwsRequest
  method : request.method = s.method.map tolower
  url : request.url = s.path
  complete : request.pieces.flatten ++ request.last = s.body

/-! ### As it was sent -/

/-- The names under which the handlers look, and those of the headers about the message itself. -/
def standardNames : List Bytes :=
  forwarded.map Prod.fst ++
    ["Host", "Content-Length", "Connection", "Expect", "Upgrade", "Transfer-Encoding",
      "Accept-Encoding", "Accept-Language", "Cache-Control"].map str

/-- The name under which a header is looked for; a header that nobody knows has its own. -/
def standardName (name : Bytes) : Bytes :=
  (standardNames.find? fun n => n.map tolower = name.map tolower).getD name

/-- The parts that both servers have to hand on. -/
structure SameRequest (s : Sent) (r : Request) : Prop where
  method : r.method = s.method
  path : r.path = s.path
  query : r.query = s.query.getD []
  body : r.body = s.body

structure HandedOn (s : Sent) (r : Request) : Prop extends SameRequest s r where
  headers : ∀ h ∈ s.headers, r.headers.find? (standardName h.name) = some h.value

/-- Files and WebSocket connections are no requests to be handed on. -/
def Outcome.All (p : Request → Prop) : Outcome → Prop
  | .closed => False
  | .served => True
  | .webSocket => True
  | .tooLarge => False
  | .dispatched r => p r

end ExamVan.Server
