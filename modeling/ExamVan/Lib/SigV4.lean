import ExamVan.Lib.Decimal
import ExamVan.Lib.Percent
import Mathlib.Data.List.Sort

/-!
# Signed requests

Version 4 of the signatures of S3. A service knows the secret of each access key. It rebuilds the
canonical request from the request that it receives, and serves the request only when the signature
is the one of that text. The hash and the keyed hash are parameters.
-/

namespace SigV4

open ByteString

/-! ### Texts -/

def lowerDigit (n : UInt8) : UInt8 := if n < 10 then chr '0' + n else chr 'a' + (n - 10)

def hex (s : Bytes) : Bytes := s.flatMap fun c => [lowerDigit (c / 16), lowerDigit (c % 16)]

/-- The bytes that pairs of digits spell. -/
def unhex : Bytes → Bytes
  | h :: l :: t =>
      (16 * (Percent.digitValue h).getD 0 + (Percent.digitValue l).getD 0) :: unhex t
  | _ => []

theorem unhex_hex (s : Bytes) : unhex (hex s) = s := by
  have hdigits : ∀ c : UInt8, 16 * (Percent.digitValue (lowerDigit (c / 16))).getD 0 +
      (Percent.digitValue (lowerDigit (c % 16))).getD 0 = c :=
    forall_byte (by decide)
  induction s with
  | nil => rfl
  | cons c s ih =>
      change (_ :: unhex (hex s)) = c :: s
      rw [hdigits, ih]

theorem hex_injective : Function.Injective hex := Function.LeftInverse.injective unhex_hex

theorem isUnreserved_of_mem_hex {s : Bytes} {c : UInt8} (h : c ∈ hex s) :
    Percent.isUnreserved c = true := by
  have hdigits : ∀ d : UInt8, Percent.isUnreserved (lowerDigit (d / 16)) = true ∧
      Percent.isUnreserved (lowerDigit (d % 16)) = true :=
    forall_byte (by decide)
  obtain ⟨d, -, hmem⟩ := List.mem_flatMap.mp h
  rcases List.mem_cons.mp hmem with rfl | hmem
  · exact (hdigits d).1
  · rw [List.mem_singleton.mp hmem]
    exact (hdigits d).2

/-- The lines of two texts are compared one by one. -/
theorem line_inj {a b : Bytes} {c : UInt8} (ha : c ∉ a) (hb : c ∉ b) {s t : Bytes} :
    a ++ c :: s = b ++ c :: t ↔ a = b ∧ s = t := by
  constructor
  · intro h
    have hleft := takeWhile_ne_append ha s
    have hright := takeWhile_ne_append hb t
    rw [h] at hleft
    refine ⟨hleft.1.symm.trans hright.1, ?_⟩
    exact (List.cons.inj (hleft.2.symm.trans hright.2)).2
  · rintro ⟨rfl, rfl⟩
    rfl

/-! ### Parameters -/

abbrev Parameter := Bytes × Bytes

def encodeParameter (p : Parameter) : Bytes :=
  Percent.encode Percent.isUnreserved p.1 ++ chr '=' :: Percent.encode Percent.isUnreserved p.2

def encodeParameters (ps : List Parameter) : Bytes := [chr '&'].intercalate (ps.map encodeParameter)

def readParameter (text : Bytes) : Parameter :=
  (Percent.decode (text.takeWhile (· ≠ chr '=')), Percent.decode (text.dropWhile (· ≠ chr '=')).tail)

def parameters (query : Bytes) : List Parameter :=
  ((query.splitOn (chr '&')).filter (· ≠ [])).map readParameter

/-- The value of the first parameter of a name. -/
def get (ps : List Parameter) (name : Bytes) : Option Bytes :=
  (ps.find? fun p => p.1 = name).map Prod.snd

theorem readParameter_encodeParameter (p : Parameter) : readParameter (encodeParameter p) = p := by
  have heq : chr '=' ∉ Percent.encode Percent.isUnreserved p.1 :=
    Percent.notMem_encode (by decide) (by decide) (by decide) p.1
  have hname := takeWhile_ne_append heq (Percent.encode Percent.isUnreserved p.2)
  unfold readParameter encodeParameter
  rw [hname.1, hname.2, List.tail_cons, Percent.decode_encode (by decide),
    Percent.decode_encode (by decide)]

theorem notMem_encodeParameter {c : UInt8} (hplain : Percent.isUnreserved c = false)
    (hpercent : c ≠ chr '%') (heq : c ≠ chr '=') (p : Parameter) : c ∉ encodeParameter p := by
  unfold encodeParameter
  rw [List.mem_append, List.mem_cons]
  rintro (h | h | h)
  · exact Percent.notMem_encode hplain hplain hpercent _ h
  · exact heq h
  · exact Percent.notMem_encode hplain hplain hpercent _ h

@[simp]
theorem encodeParameters_singleton (p : Parameter) : encodeParameters [p] = encodeParameter p := by
  simp [encodeParameters]

@[simp]
theorem encodeParameters_cons (p q : Parameter) (ps : List Parameter) :
    encodeParameters (p :: q :: ps) = encodeParameter p ++ chr '&' :: encodeParameters (q :: ps) := by
  simp [encodeParameters]

theorem notMem_encodeParameters {c : UInt8} (hplain : Percent.isUnreserved c = false)
    (hpercent : c ≠ chr '%') (heq : c ≠ chr '=') (hand : c ≠ chr '&') (ps : List Parameter) :
    c ∉ encodeParameters ps := by
  induction ps with
  | nil => exact List.not_mem_nil
  | cons p ps ih =>
      have hp := notMem_encodeParameter hplain hpercent heq p
      cases ps with
      | nil =>
          rw [encodeParameters_singleton]
          exact hp
      | cons q ps =>
          rw [encodeParameters_cons, List.mem_append, List.mem_cons]
          rintro (h | h | h)
          · exact hp h
          · exact hand h
          · exact ih h

theorem parameters_encodeParameters {ps : List Parameter} (hne : ps ≠ []) :
    parameters (encodeParameters ps) = ps := by
  have hkept : ∀ text ∈ ps.map encodeParameter, decide (text ≠ []) = true := by
    intro text htext
    obtain ⟨p, -, rfl⟩ := List.mem_map.mp htext
    simp [encodeParameter]
  unfold parameters encodeParameters
  rw [List.splitOn_intercalate, List.filter_eq_self.mpr hkept, List.map_map]
  · refine (List.map_congr_left fun p _ => ?_).trans (List.map_id ps)
    exact readParameter_encodeParameter p
  · intro text htext
    obtain ⟨p, -, rfl⟩ := List.mem_map.mp htext
    exact notMem_encodeParameter (by decide) (by decide) (by decide) p
  · simpa using hne

theorem get_eq_some_iff {ps : List Parameter} (hps : (ps.map Prod.fst).Nodup) {name value : Bytes} :
    get ps name = some value ↔ (name, value) ∈ ps := by
  induction ps with
  | nil => simp [get]
  | cons p ps ih =>
      rw [List.map_cons, List.nodup_cons] at hps
      have hrest := ih hps.2
      by_cases hname : p.1 = name
      · have hnotMem : (name, value) ∉ ps := fun hmem =>
          hps.1 (hname ▸ List.mem_map_of_mem (f := Prod.fst) hmem)
        have hhead : get (p :: ps) name = some p.2 := by simp [get, hname]
        rw [hhead, List.mem_cons, or_iff_left hnotMem, Prod.ext_iff, Option.some_inj]
        constructor
        · intro heq
          exact ⟨hname.symm, heq.symm⟩
        · intro heq
          exact heq.2.symm
      · have hne : (name, value) ≠ p := fun heq => hname (congrArg Prod.fst heq).symm
        have htail : get (p :: ps) name = get ps name := by simp [get, hname]
        rw [htail, hrest, List.mem_cons, or_iff_right hne]

/-- Where no name comes twice, the order does not matter. -/
theorem get_perm {ps qs : List Parameter} (h : ps.Perm qs) (hnodup : (qs.map Prod.fst).Nodup)
    (name : Bytes) : get ps name = get qs name := by
  have hps : (ps.map Prod.fst).Nodup := (h.map Prod.fst).nodup_iff.mpr hnodup
  ext value
  rw [get_eq_some_iff hps, get_eq_some_iff hnodup]
  exact h.mem_iff

/-! ### The canonical order -/

/-- Byte strings in their order. -/
def textLe : Bytes → Bytes → Bool
  | [], _ => true
  | _ :: _, [] => false
  | a :: s, b :: t => a < b || (a = b && textLe s t)

/-- By the encoded name, and then by the encoded value. -/
def parameterLe (p q : Parameter) : Bool :=
  let encoded := Percent.encode Percent.isUnreserved
  if encoded p.1 = encoded q.1 then textLe (encoded p.2) (encoded q.2)
  else textLe (encoded p.1) (encoded q.1)

def canonicalOrder (ps : List Parameter) : List Parameter :=
  ps.insertionSort fun p q => parameterLe p q = true

def canonicalQuery (ps : List Parameter) : Bytes := encodeParameters (canonicalOrder ps)

theorem canonicalOrder_perm (ps : List Parameter) : (canonicalOrder ps).Perm ps :=
  List.perm_insertionSort _ ps

theorem perm_of_canonicalQuery_eq {ps qs : List Parameter} (hps : ps ≠ []) (hqs : qs ≠ [])
    (h : canonicalQuery ps = canonicalQuery qs) : ps.Perm qs := by
  have hne : ∀ {rs : List Parameter}, rs ≠ [] → canonicalOrder rs ≠ [] := fun hrs heq =>
    hrs (List.nil_perm.mp (heq ▸ canonicalOrder_perm _))
  have hread := congrArg parameters h
  unfold canonicalQuery at hread
  rw [parameters_encodeParameters (hne hps), parameters_encodeParameters (hne hqs)] at hread
  exact (canonicalOrder_perm ps).symm.trans (hread ▸ canonicalOrder_perm qs)

/-! ### Canonical requests -/

/-- What a signature covers. -/
structure Canonical where
  method : Bytes
  uri : Bytes
  query : Bytes
  headers : List Parameter
  payload : Bytes
  deriving DecidableEq

namespace Canonical

def headerText (headers : List Parameter) : Bytes :=
  headers.flatMap fun h => h.1 ++ chr ':' :: (h.2 ++ [chr '\n'])

def signedNames (c : Canonical) : Bytes := [chr ';'].intercalate (c.headers.map Prod.fst)

def text (c : Canonical) : Bytes :=
  c.method ++ chr '\n' :: (c.uri ++ chr '\n' :: (c.query ++ chr '\n' :: (headerText c.headers ++
    chr '\n' :: (c.signedNames ++ chr '\n' :: c.payload))))

/-- Every part keeps to its line. -/
structure Lined (c : Canonical) : Prop where
  method : chr '\n' ∉ c.method
  uri : chr '\n' ∉ c.uri
  query : chr '\n' ∉ c.query
  names : ∀ h ∈ c.headers, chr ':' ∉ h.1 ∧ chr '\n' ∉ h.1
  values : ∀ h ∈ c.headers, chr '\n' ∉ h.2

theorem headerText_inj {hs ks : List Parameter} {s t : Bytes}
    (hhs : ∀ h ∈ hs, (chr ':' ∉ h.1 ∧ chr '\n' ∉ h.1) ∧ chr '\n' ∉ h.2)
    (hks : ∀ h ∈ ks, (chr ':' ∉ h.1 ∧ chr '\n' ∉ h.1) ∧ chr '\n' ∉ h.2)
    (h : headerText hs ++ chr '\n' :: s = headerText ks ++ chr '\n' :: t) : hs = ks ∧ s = t := by
  have hline : ∀ {k : Parameter}, chr '\n' ∉ k.1 → ∀ u v, chr '\n' :: u ≠ k.1 ++ chr ':' :: v := by
    intro k hk u v heq
    cases hname : k.1 with
    | nil =>
        rw [hname] at heq
        exact absurd (List.cons.inj heq).1 (by decide)
    | cons c name =>
        rw [hname] at heq hk
        exact hk ((List.cons.inj heq).1 ▸ List.mem_cons_self)
  induction hs generalizing ks with
  | nil =>
      cases ks with
      | nil => exact ⟨rfl, (List.cons.inj h).2⟩
      | cons k ks =>
          refine absurd ?_ (hline (hks k List.mem_cons_self).1.2 s
            (k.2 ++ chr '\n' :: (headerText ks ++ chr '\n' :: t)))
          exact h.trans (by simp [headerText])
  | cons x hs ih =>
      cases ks with
      | nil =>
          refine absurd ?_ (hline (hhs x List.mem_cons_self).1.2 t
            (x.2 ++ chr '\n' :: (headerText hs ++ chr '\n' :: s)))
          exact h.symm.trans (by simp [headerText])
      | cons k ks =>
          rw [List.forall_mem_cons] at hhs hks
          have hsplit : ∀ (y : Parameter) (ys : List Parameter) (u : Bytes),
              headerText (y :: ys) ++ chr '\n' :: u =
                y.1 ++ chr ':' :: (y.2 ++ chr '\n' :: (headerText ys ++ chr '\n' :: u)) := by
            intro y ys u
            simp [headerText]
          rw [hsplit, hsplit, line_inj hhs.1.1.1 hks.1.1.1, line_inj hhs.1.2 hks.1.2] at h
          obtain ⟨hname, hvalue, hrest⟩ := h
          obtain ⟨heq, htail⟩ := ih hhs.2 hks.2 hrest
          exact ⟨by rw [heq, Prod.ext hname hvalue], htail⟩

theorem text_injOn {c d : Canonical} (hc : c.Lined) (hd : d.Lined) (h : c.text = d.text) : c = d := by
  unfold text at h
  rw [line_inj hc.method hd.method, line_inj hc.uri hd.uri, line_inj hc.query hd.query] at h
  obtain ⟨hmethod, huri, hquery, hrest⟩ := h
  obtain ⟨hheaders, htail⟩ := headerText_inj (fun x hx => ⟨hc.names x hx, hc.values x hx⟩)
    (fun x hx => ⟨hd.names x hx, hd.values x hx⟩) hrest
  have hnames : c.signedNames = d.signedNames := by rw [signedNames, signedNames, hheaders]
  rw [hnames, List.append_cancel_left_eq] at htail
  cases c
  cases d
  simp_all

end Canonical

/-! ### Signatures -/

structure Suite where
  hash : Bytes → Bytes
  mac : Bytes → Bytes → Bytes

structure Scope where
  date : Bytes
  region : Bytes
  service : Bytes
  deriving DecidableEq

def terminator : Bytes := str "aws4_request"

def Scope.text (s : Scope) : Bytes :=
  s.date ++ chr '/' :: (s.region ++ chr '/' :: (s.service ++ chr '/' :: terminator))

def algorithm : Bytes := str "AWS4-HMAC-SHA256"

namespace Suite

variable (S : Suite)

def signingKey (secret : Bytes) (scope : Scope) : Bytes :=
  S.mac (S.mac (S.mac (S.mac (str "AWS4" ++ secret) scope.date) scope.region) scope.service) terminator

def stringToSign (stamp : Bytes) (scope : Scope) (c : Canonical) : Bytes :=
  algorithm ++ chr '\n' :: (stamp ++ chr '\n' :: (scope.text ++ chr '\n' :: hex (S.hash c.text)))

def signature (secret stamp : Bytes) (scope : Scope) (c : Canonical) : Bytes :=
  hex (S.mac (S.signingKey secret scope) (S.stringToSign stamp scope c))

/-- Two texts that the hash does not tell apart. -/
def HashCollision (s t : Bytes) : Prop := s ≠ t ∧ S.hash s = S.hash t

/-- Two keyed texts that the keyed hash does not tell apart. -/
def MacCollision (k s k' s' : Bytes) : Prop := (k, s) ≠ (k', s') ∧ S.mac k s = S.mac k' s'

variable {S} {secret secret' stamp stamp' : Bytes} {scope scope' : Scope} {c c' : Canonical}

/-- Equal signatures are signatures of the same canonical request, or a collision. -/
theorem canonical_of_signature_eq (hstamp : chr '\n' ∉ stamp) (hstamp' : chr '\n' ∉ stamp')
    (hscope : chr '\n' ∉ scope.text) (hscope' : chr '\n' ∉ scope'.text) (hc : c.Lined) (hc' : c'.Lined)
    (h : S.signature secret stamp scope c = S.signature secret' stamp' scope' c') :
    (stamp = stamp' ∧ c = c') ∨
      S.MacCollision (S.signingKey secret scope) (S.stringToSign stamp scope c)
        (S.signingKey secret' scope') (S.stringToSign stamp' scope' c') ∨
      S.HashCollision c.text c'.text := by
  have hmac := hex_injective h
  by_cases hpair : (S.signingKey secret scope, S.stringToSign stamp scope c) =
      (S.signingKey secret' scope', S.stringToSign stamp' scope' c')
  · have hstring := (Prod.mk.inj hpair).2
    unfold stringToSign at hstring
    rw [line_inj (by decide) (by decide), line_inj hstamp hstamp', line_inj hscope hscope'] at hstring
    obtain ⟨-, hstamps, -, hhash⟩ := hstring
    by_cases htext : c.text = c'.text
    · exact .inl ⟨hstamps, Canonical.text_injOn hc hc' htext⟩
    · exact .inr (.inr ⟨htext, hex_injective hhash⟩)
  · exact .inr (.inl ⟨hpair, hmac⟩)

end Suite

/-! ### The service -/

structure Request where
  method : Bytes
  path : Bytes
  query : Bytes := []
  /-- the names in lower case -/
  headers : List Parameter := []
  body : Bytes := []

/-- What a message can hold: a method and headers that keep to their lines. -/
structure Request.Lined (req : Request) : Prop where
  method : chr '\n' ∉ req.method
  headers : ∀ h ∈ req.headers, chr ':' ∉ h.1 ∧ chr '\n' ∉ h.1 ∧ chr '\n' ∉ h.2

structure Service where
  suite : Suite
  region : Bytes
  region_lined : chr '\n' ∉ region
  /-- the secret of an access key -/
  secretOf : Bytes → Option Bytes
  /-- the time of a stamp -/
  readStamp : Bytes → Option Int
  stamp_lined : ∀ stamp time, readStamp stamp = some time → chr '\n' ∉ stamp
  /-- how far a signer's clock may be ahead -/
  skew : Nat

def algorithmName : Bytes := str "X-Amz-Algorithm"

def credentialName : Bytes := str "X-Amz-Credential"

def dateName : Bytes := str "X-Amz-Date"

def expiresName : Bytes := str "X-Amz-Expires"

def signedHeadersName : Bytes := str "X-Amz-SignedHeaders"

def signatureName : Bytes := str "X-Amz-Signature"

def hostName : Bytes := str "host"

def unsignedPayload : Bytes := str "UNSIGNED-PAYLOAD"

def maxTerm : Nat := 604800

def readNumber (text : Bytes) : Option Nat :=
  if text ≠ [] ∧ text.all isDigit then some (digitsValue text) else none

/-- An access key and a scope. -/
def readCredential (text : Bytes) : Option (Bytes × Scope) :=
  match text.splitOn (chr '/') with
  | [key, date, region, service, last] =>
      if last = terminator then some (key, ⟨date, region, service⟩) else none
  | _ => none

def credential (key : Bytes) (scope : Scope) : Bytes := key ++ chr '/' :: scope.text

/-- The values of the headers that a signature covers; `none` where the request lacks one. -/
def signedHeaders (headers : List Parameter) (names : Bytes) : Option (List Parameter) :=
  (names.splitOn (chr ';')).mapM fun name => (get headers name).map fun value => (name, value)

def canonicalUri (path : Bytes) : Bytes := Percent.encode Percent.isPathByte (Percent.decode path)

/-- The canonical request that a presigned request stands for. -/
def presignedCanonical (req : Request) (headers : List Parameter) : Canonical where
  method := req.method
  uri := canonicalUri req.path
  query := canonicalQuery ((parameters req.query).filter (·.1 ≠ signatureName))
  headers := headers
  payload := unsignedPayload

/-- A presigned request as the service reads it. -/
structure Presigned where
  stamp : Bytes
  time : Int
  term : Nat
  scope : Scope
  secret : Bytes
  headers : List Parameter
  signature : Bytes

namespace Service

variable (svc : Service)

def readPresigned (req : Request) : Option Presigned := do
  let ps := parameters req.query
  let (key, scope) ← (get ps credentialName).bind readCredential
  let secret ← svc.secretOf key
  let stamp ← get ps dateName
  let time ← svc.readStamp stamp
  let term ← (get ps expiresName).bind readNumber
  let names ← get ps signedHeadersName
  let headers ← signedHeaders req.headers names
  let signature ← get ps signatureName
  if get ps algorithmName = some algorithm ∧ scope = ⟨stamp.take 8, svc.region, str "s3"⟩ ∧
      hostName ∈ headers.map Prod.fst ∧ 1 ≤ term ∧ term ≤ maxTerm then
    some { stamp, time, term, scope, secret, headers, signature }
  else none

/-- Whether the service serves a presigned request at a time: to its method, the object that its
path names. -/
def admits (now : Int) (req : Request) : Bool :=
  match svc.readPresigned req with
  | none => false
  | some p => p.time - svc.skew ≤ now && now ≤ p.time + p.term &&
      p.signature = svc.suite.signature p.secret p.stamp p.scope (presignedCanonical req p.headers)

end Service

/-! ### Signing a request -/

/-- What a signer puts into the query, in the order of the names. -/
def presignParameters (key stamp region : Bytes) (term : Nat) : List Parameter :=
  [(algorithmName, algorithm),
    (credentialName, credential key ⟨stamp.take 8, region, str "s3"⟩),
    (dateName, stamp),
    (expiresName, natText term),
    (signedHeadersName, hostName)]

def presignCanonical (key stamp region host object : Bytes) (term : Nat) : Canonical where
  method := str "GET"
  uri := Percent.encode Percent.isPathByte object
  query := encodeParameters (presignParameters key stamp region term)
  headers := [(hostName, host)]
  payload := unsignedPayload

def presignSignature (S : Suite) (key secret stamp region host object : Bytes) (term : Nat) : Bytes :=
  S.signature secret stamp ⟨stamp.take 8, region, str "s3"⟩
    (presignCanonical key stamp region host object term)

/-- The request that a presigned URL stands for. -/
def presign (S : Suite) (key secret stamp region host object : Bytes) (term : Nat) : Request where
  method := str "GET"
  path := Percent.encode Percent.isPathByte object
  query := encodeParameters (presignParameters key stamp region term ++
    [(signatureName, presignSignature S key secret stamp region host object term)])
  headers := [(hostName, host)]

section

variable {svc : Service} {key secret stamp region host object : Bytes} {term : Nat} {time now : Int}

theorem digitsRead (n : Nat) : readNumber (natText n) = some n := by
  have hdigits : (natText n).all isDigit = true :=
    List.all_eq_true.mpr fun c hc => isDigit_of_mem_natText hc
  rw [readNumber, if_pos ⟨natText_ne_nil n, hdigits⟩, digitsValue_natText]

theorem readCredential_credential (scope : Scope) (hkey : chr '/' ∉ key) (hdate : chr '/' ∉ scope.date)
    (hregion : chr '/' ∉ scope.region) (hservice : chr '/' ∉ scope.service) :
    readCredential (credential key scope) = some (key, scope) := by
  have hjoin : credential key scope = [chr '/'].intercalate
      [key, scope.date, scope.region, scope.service, terminator] := by
    simp [credential, Scope.text, List.intercalate]
  have hsplit : (credential key scope).splitOn (chr '/') =
      [key, scope.date, scope.region, scope.service, terminator] := by
    rw [hjoin, List.splitOn_intercalate]
    · simp only [List.forall_mem_cons, List.not_mem_nil, false_imp_iff, implies_true, and_true]
      exact ⟨hkey, hdate, hregion, hservice, by decide⟩
    · exact List.cons_ne_nil _ _
  rw [readCredential, hsplit]
  exact if_pos rfl

theorem map_fst_presign :
    (presignParameters key stamp region term).map Prod.fst =
      [algorithmName, credentialName, dateName, expiresName, signedHeadersName] := rfl

theorem nodup_presign (sig : Bytes) :
    ((presignParameters key stamp region term ++ [(signatureName, sig)]).map Prod.fst).Nodup := by
  rw [List.map_append, map_fst_presign]
  change [algorithmName, credentialName, dateName, expiresName, signedHeadersName, signatureName].Nodup
  decide

theorem filter_presign (sig : Bytes) :
    (presignParameters key stamp region term ++ [(signatureName, sig)]).filter
      (·.1 ≠ signatureName) = presignParameters key stamp region term := by
  have hkept : ∀ p ∈ presignParameters key stamp region term,
      decide (p.1 ≠ signatureName) = true := by
    intro p hp
    have hname := List.mem_map_of_mem (f := Prod.fst) hp
    rw [map_fst_presign] at hname
    apply decide_eq_true
    intro heq
    rw [heq] at hname
    exact absurd hname (by decide)
  rw [List.filter_append, List.filter_eq_self.mpr hkept, List.filter_cons_of_neg (by simp),
    List.filter_nil, List.append_nil]

theorem get_presign (sig : Bytes) {name : Bytes} (value : Bytes)
    (h : (name, value) ∈ presignParameters key stamp region term ++ [(signatureName, sig)]) :
    get (presignParameters key stamp region term ++ [(signatureName, sig)]) name = some value :=
  (get_eq_some_iff (nodup_presign sig)).mpr h

/-- The names are already in their order. -/
theorem canonicalOrder_presign :
    canonicalOrder (presignParameters key stamp region term) =
      presignParameters key stamp region term := by
  apply List.Pairwise.insertionSort_eq
  have hnames : ∀ {m n : Bytes} (v w : Bytes), (Percent.encode Percent.isUnreserved m ≠
      Percent.encode Percent.isUnreserved n ∧ textLe (Percent.encode Percent.isUnreserved m)
        (Percent.encode Percent.isUnreserved n) = true) → parameterLe (m, v) (n, w) = true := by
    rintro m n v w ⟨hne, hle⟩
    rw [parameterLe, if_neg hne, hle]
  simp only [presignParameters, List.pairwise_cons, List.forall_mem_cons, List.not_mem_nil,
    false_imp_iff, implies_true, and_true, List.Pairwise.nil]
  refine ⟨⟨?_, ?_, ?_, ?_⟩, ⟨?_, ?_, ?_⟩, ⟨?_, ?_⟩, ?_⟩
  all_goals
    apply hnames
    decide

theorem presignedCanonical_presign (sig : Bytes) :
    presignedCanonical
        { method := str "GET"
          path := Percent.encode Percent.isPathByte object
          query := encodeParameters (presignParameters key stamp svc.region term ++
            [(signatureName, sig)])
          headers := [(hostName, host)] } [(hostName, host)] =
      presignCanonical key stamp svc.region host object term := by
  unfold presignedCanonical presignCanonical
  dsimp only
  rw [parameters_encodeParameters (by simp [presignParameters]), filter_presign, canonicalQuery,
    canonicalOrder_presign, canonicalUri, Percent.decode_encode (by decide)]

theorem readPresigned_presign (svc : Service) (hsecret : svc.secretOf key = some secret)
    (hstamp : svc.readStamp stamp = some time) (hkey : chr '/' ∉ key)
    (hdate : chr '/' ∉ stamp.take 8) (hregion : chr '/' ∉ svc.region)
    (hterm : 1 ≤ term ∧ term ≤ maxTerm) :
    svc.readPresigned (presign svc.suite key secret stamp svc.region host object term) =
      some
        { stamp, time, term, secret
          scope := ⟨stamp.take 8, svc.region, str "s3"⟩
          headers := [(hostName, host)]
          signature := presignSignature svc.suite key secret stamp svc.region host object term } := by
  have hcredential := readCredential_credential ⟨stamp.take 8, svc.region, str "s3"⟩
    hkey hdate hregion (by decide : chr '/' ∉ str "s3")
  have hnames : hostName.splitOn (chr ';') = [hostName] := by decide
  have hheaders : signedHeaders [(hostName, host)] hostName = some [(hostName, host)] := by
    simp [signedHeaders, hnames, get]
  unfold Service.readPresigned presign
  dsimp only
  rw [parameters_encodeParameters (by simp [presignParameters]),
    get_presign _ (credential key ⟨stamp.take 8, svc.region, str "s3"⟩)
      (by simp [presignParameters]),
    get_presign _ stamp (by simp [presignParameters]),
    get_presign _ (natText term) (by simp [presignParameters]),
    get_presign _ hostName (by simp [presignParameters]),
    get_presign _ (presignSignature svc.suite key secret stamp svc.region host object term)
      (by simp),
    get_presign _ algorithm (by simp [presignParameters])]
  simp [hcredential, digitsRead, hsecret, hstamp, hheaders, hterm]

/-- A presigned request is served from the time of its stamp to the end of its term. -/
theorem admits_presign_iff (svc : Service) (hsecret : svc.secretOf key = some secret)
    (hstamp : svc.readStamp stamp = some time) (hkey : chr '/' ∉ key)
    (hdate : chr '/' ∉ stamp.take 8) (hregion : chr '/' ∉ svc.region)
    (hterm : 1 ≤ term ∧ term ≤ maxTerm) :
    svc.admits now (presign svc.suite key secret stamp svc.region host object term) = true ↔
      time - svc.skew ≤ now ∧ now ≤ time + term := by
  have hcanonical : presignedCanonical
      (presign svc.suite key secret stamp svc.region host object term) [(hostName, host)] =
        presignCanonical key stamp svc.region host object term :=
    presignedCanonical_presign _
  rw [Service.admits, readPresigned_presign svc hsecret hstamp hkey hdate hregion hterm]
  dsimp only
  rw [hcanonical, presignSignature]
  simp

/-! ### What a signature opens -/

theorem get_filter_of_ne {name other : Bytes} (h : name ≠ other) (ps : List Parameter) :
    get (ps.filter (·.1 ≠ other)) name = get ps name := by
  unfold get
  rw [List.find?_filter]
  congr 2
  funext p
  by_cases hname : p.1 = name
  · simp [hname, h]
  · simp [hname]

theorem mem_of_get {ps : List Parameter} {name value : Bytes} (h : get ps name = some value) :
    (name, value) ∈ ps := by
  obtain ⟨p, hfind, rfl⟩ := Option.map_eq_some_iff.mp h
  have hname : p.1 = name := by simpa using List.find?_some hfind
  rw [← hname]
  exact List.mem_of_find?_eq_some hfind

theorem get_of_mem_signedHeaders {headers signed : List Parameter} {names : Bytes}
    (h : signedHeaders headers names = some signed) :
    ∀ x ∈ signed, get headers x.1 = some x.2 := by
  unfold signedHeaders at h
  generalize names.splitOn (chr ';') = texts at h
  induction texts generalizing signed with
  | nil =>
      rw [List.mapM_nil] at h
      cases h
      exact List.forall_mem_nil _
  | cons name texts ih =>
      rw [List.mapM_cons] at h
      simp only [bind, Option.bind_eq_some_iff, Option.map_eq_some_iff, pure, Option.some_inj] at h
      obtain ⟨_, ⟨value, hvalue, rfl⟩, rest, hrest, rfl⟩ := h
      rw [List.forall_mem_cons]
      exact ⟨hvalue, ih hrest⟩

/-- What the service has read of a presigned request. -/
structure Reads (svc : Service) (req : Request) (p : Presigned) : Prop where
  stamp : get (parameters req.query) dateName = some p.stamp
  time : svc.readStamp p.stamp = some p.time
  term : (get (parameters req.query) expiresName).bind readNumber = some p.term
  signature : get (parameters req.query) signatureName = some p.signature
  scope : p.scope = ⟨p.stamp.take 8, svc.region, str "s3"⟩
  headers : ∀ x ∈ p.headers, get req.headers x.1 = some x.2

theorem reads_of_readPresigned {req : Request} {p : Presigned} (h : svc.readPresigned req = some p) :
    Reads svc req p := by
  unfold Service.readPresigned at h
  simp only [bind, Option.bind_eq_some_iff, Prod.exists] at h
  obtain ⟨key, scope, -, secret, -, stamp, hstamp, time, htime, term, hterm, names, -, headers,
    hheaders, signature, hsignature, h⟩ := h
  obtain ⟨hterms, hnumber, hread⟩ := hterm
  split_ifs at h with hchecks
  cases h
  exact
    { stamp := hstamp
      time := htime
      term := by rw [hnumber, Option.bind_some, hread]
      signature := hsignature
      scope := hchecks.2.1
      headers := get_of_mem_signedHeaders hheaders }

/-- A presigned request keeps to its lines. -/
theorem lined_presignedCanonical {req : Request} {headers : List Parameter} (hreq : req.Lined)
    (hheaders : ∀ x ∈ headers, get req.headers x.1 = some x.2) :
    (presignedCanonical req headers).Lined where
  method := hreq.method
  uri := Percent.notMem_encode (by decide) (by decide) (by decide) _
  query := notMem_encodeParameters (by decide) (by decide) (by decide) (by decide) _
  names x hx :=
    have hmem := hreq.headers x (mem_of_get (hheaders x hx))
    ⟨hmem.1, hmem.2.1⟩
  values x hx := (hreq.headers x (mem_of_get (hheaders x hx))).2.2

theorem lined_presignCanonical (hhost : chr '\n' ∉ host) :
    (presignCanonical key stamp region host object term).Lined where
  method := by
    change chr '\n' ∉ str "GET"
    decide
  uri := Percent.notMem_encode (by decide) (by decide) (by decide) _
  query := notMem_encodeParameters (by decide) (by decide) (by decide) (by decide) _
  names x hx := by
    rw [List.mem_singleton.mp hx]
    change chr ':' ∉ hostName ∧ chr '\n' ∉ hostName
    decide
  values x hx := by
    rw [List.mem_singleton.mp hx]
    exact hhost

/-- A request whose signature is one of another canonical request with the same hash or keyed hash. -/
def Forged (svc : Service) (key secret stamp host object : Bytes) (term : Nat) (req : Request) : Prop :=
  ∃ p, svc.readPresigned req = some p ∧
    (svc.suite.MacCollision (svc.suite.signingKey p.secret p.scope)
        (svc.suite.stringToSign p.stamp p.scope (presignedCanonical req p.headers))
        (svc.suite.signingKey secret ⟨stamp.take 8, svc.region, str "s3"⟩)
        (svc.suite.stringToSign stamp ⟨stamp.take 8, svc.region, str "s3"⟩
          (presignCanonical key stamp svc.region host object term)) ∨
      svc.suite.HashCollision (presignedCanonical req p.headers).text
        (presignCanonical key stamp svc.region host object term).text)

theorem term_of_canonicalQuery {req : Request} {p : Presigned} (h : Reads svc req p)
    (hquery : canonicalQuery ((parameters req.query).filter (·.1 ≠ signatureName)) =
      canonicalQuery (presignParameters key stamp svc.region term)) : p.term = term := by
  have hne : (parameters req.query).filter (·.1 ≠ signatureName) ≠ [] := by
    intro hnil
    have hget := get_filter_of_ne (by decide : dateName ≠ signatureName) (parameters req.query)
    rw [hnil, h.stamp] at hget
    cases hget
  have hnodup : ((presignParameters key stamp svc.region term).map Prod.fst).Nodup := by
    rw [map_fst_presign]
    decide
  have hperm := perm_of_canonicalQuery_eq hne (by simp [presignParameters]) hquery
  have hexpires : get (parameters req.query) expiresName = some (natText term) :=
    calc get (parameters req.query) expiresName
      _ = get ((parameters req.query).filter (·.1 ≠ signatureName)) expiresName :=
          (get_filter_of_ne (by decide) _).symm
      _ = get (presignParameters key stamp svc.region term) expiresName := get_perm hperm hnodup _
      _ = some (natText term) := (get_eq_some_iff hnodup).mpr (by simp [presignParameters])
  have hread := h.term
  rw [hexpires, Option.bind_some, digitsRead] at hread
  exact (Option.some.inj hread).symm

/-- The signature of a presigned request opens that object for reading, at that host and until the end
of its term, and nothing else. -/
theorem opens_only (svc : Service) {req : Request} (hreq : req.Lined) (hadmits : svc.admits now req = true)
    (hsignature : get (parameters req.query) signatureName =
      some (presignSignature svc.suite key secret stamp svc.region host object term))
    (hstamp : svc.readStamp stamp = some time) (hhost : chr '\n' ∉ host) :
    Forged svc key secret stamp host object term req ∨
      (req.method = str "GET" ∧ Percent.decode req.path = object ∧
        get req.headers hostName = some host ∧ time - svc.skew ≤ now ∧ now ≤ time + term) := by
  unfold Service.admits at hadmits
  cases hread : svc.readPresigned req with
  | none => simp [hread] at hadmits
  | some p =>
      simp only [hread, Bool.and_eq_true, decide_eq_true_eq] at hadmits
      obtain ⟨⟨hearly, hlate⟩, hequal⟩ := hadmits
      have hreads := reads_of_readPresigned hread
      rw [hreads.signature, Option.some_inj] at hsignature
      have hlined := svc.stamp_lined _ _ hstamp
      have hlined' := svc.stamp_lined _ _ hreads.time
      have hscope : ∀ {s : Bytes}, chr '\n' ∉ s →
          chr '\n' ∉ Scope.text ⟨s.take 8, svc.region, str "s3"⟩ := by
        intro s hs
        simp only [Scope.text, List.mem_append, List.mem_cons, not_or]
        refine ⟨fun hmem => hs (List.mem_of_mem_take hmem), by decide, svc.region_lined, by decide,
          by decide, by decide, by decide⟩
      have hsame := hequal.symm.trans hsignature
      rw [presignSignature, hreads.scope] at hsame
      rcases Suite.canonical_of_signature_eq hlined' hlined (hscope hlined') (hscope hlined)
        (lined_presignedCanonical hreq hreads.headers) (lined_presignCanonical hhost) hsame with
        ⟨hstamps, hcanonical⟩ | hmac | hhash
      · right
        have huri := congrArg Canonical.uri hcanonical
        have hheaders : p.headers = [(hostName, host)] := congrArg Canonical.headers hcanonical
        have hquery : canonicalQuery ((parameters req.query).filter (·.1 ≠ signatureName)) =
            canonicalQuery (presignParameters key stamp svc.region term) := by
          rw [canonicalQuery, canonicalQuery, canonicalOrder_presign]
          exact congrArg Canonical.query hcanonical
        have htime : p.time = time := by
          have hread := hreads.time
          rw [hstamps, hstamp] at hread
          exact (Option.some.inj hread).symm
        have hterm : p.term = term := term_of_canonicalQuery hreads hquery
        refine ⟨congrArg Canonical.method hcanonical, ?_, ?_, ?_, ?_⟩
        · exact Percent.encode_injective (by decide) huri
        · exact hreads.headers (hostName, host) (hheaders ▸ List.mem_cons_self)
        · rw [← htime]
          exact hearly
        · rw [← htime, ← hterm]
          exact hlate
      · exact .inl ⟨p, hread, .inl (by rw [hreads.scope]; exact hmac)⟩
      · exact .inl ⟨p, hread, .inr hhash⟩

end

end SigV4
