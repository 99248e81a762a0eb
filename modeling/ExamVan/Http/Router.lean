import ExamVan.Api.Body
import ExamVan.Lib.Bytes

/-!
# Routes

A request goes to the first route with its method whose pattern matches the decoded path. A segment
of a pattern that starts with a colon takes the segment of the path as a parameter, except when the
path is the pattern's own text: then the match leaves the parameters empty.
-/

/-!
## Responses

The status and the body of a response. Its headers are left out: apart from those of the protobuf
answers they are the same for every JSON body.
-/

namespace ExamVan.Http

open ByteString

structure Response where
  status : Nat
  body : Bytes
  deriving DecidableEq

/-- A response with `"success":false` and an error text. -/
def failure (status : Nat) (error : Bytes) : Response :=
  ⟨status, str "\x7b\"success\":false,\"error\":\"" ++ error ++ str "\"\x7d"⟩

/-- A response with an error text alone. -/
def plainError (status : Nat) (error : Bytes) : Response :=
  ⟨status, str "\x7b\"error\":\"" ++ error ++ str "\"\x7d"⟩

/-- A response with an error text and a code. -/
def codedError (status : Nat) (error code : Bytes) : Response :=
  ⟨status, str "\x7b\"error\":\"" ++ error ++ str "\",\"error_code\":\"" ++ code ++ str "\"\x7d"⟩

/-- A response with `"success":false`, an error text and a code. -/
def codedFailure (status : Nat) (error code : Bytes) : Response :=
  ⟨status, str "\x7b\"success\":false,\"error\":\"" ++ error ++ str "\",\"error_code\":\"" ++ code ++
    str "\"\x7d"⟩

end ExamVan.Http

namespace ExamVan.Http

open ByteString Queue Api

structure Request where
  method : Bytes := []
  path : Bytes := []
  headers : StringMap := OrderedMap.empty
  body : Bytes := []
  query : Bytes := []
  params : StringMap := OrderedMap.empty

/-- The nonempty segments of a path. -/
def segments (path : Bytes) : List Bytes := (path.splitOn (chr '/')).filter (· ≠ [])

/-- The name of a parameter segment. -/
def paramName? : Bytes → Option Bytes
  | [] => none
  | c :: name => if c = chr ':' then some name else none

/-- The loop of `Router::match` over the segments. -/
def matchSegments : List Bytes → List Bytes → StringMap → Option StringMap
  | [], [], out => some out
  | p :: pp, a :: ap, out =>
      match paramName? p with
      | some name => matchSegments pp ap (out.insert name a)
      | none => if p ≠ a then none else matchSegments pp ap out
  | _, _, _ => none

/-- `Router::match`: the parameters, or `none` where it returns false. -/
def routerMatch (pat path : Bytes) : Option StringMap :=
  if pat = urlDecode path then some OrderedMap.empty
  else matchSegments (segments pat) (segments (urlDecode path)) OrderedMap.empty

theorem find?_matchSegments_of_notMem {pp ap : List Bytes} {out params : StringMap} {name : Bytes}
    (h : matchSegments pp ap out = some params) (hname : some name ∉ pp.map paramName?) :
    params.find? name = out.find? name := by
  induction pp generalizing ap out with
  | nil =>
      cases ap with
      | nil => simp_all [matchSegments]
      | cons a ap => simp [matchSegments] at h
  | cons p pp ih =>
      cases ap with
      | nil => simp [matchSegments] at h
      | cons a ap =>
          simp only [List.map_cons, List.mem_cons, not_or] at hname
          unfold matchSegments at h
          cases hp : paramName? p with
          | none =>
              simp only [hp] at h
              split at h
              · cases h
              · exact ih h hname.2
          | some other =>
              simp only [hp] at h
              have hne : name ≠ other := fun heq => hname.1 (by rw [hp, heq])
              rw [ih h hname.2, OrderedMap.find?_insert_of_ne hne]

/-- A parameter of the pattern is bound to a segment of the path. -/
theorem find?_matchSegments {pp ap : List Bytes} {out params : StringMap} {name : Bytes}
    (h : matchSegments pp ap out = some params) (hname : some name ∈ pp.map paramName?) :
    ∃ a ∈ ap, params.find? name = some a := by
  induction pp generalizing ap out with
  | nil => simp at hname
  | cons p pp ih =>
      cases ap with
      | nil => simp [matchSegments] at h
      | cons a ap =>
          by_cases hrest : some name ∈ pp.map paramName?
          · unfold matchSegments at h
            cases hp : paramName? p with
            | none =>
                simp only [hp] at h
                split at h
                · cases h
                · obtain ⟨b, hb, hfind⟩ := ih h hrest
                  exact ⟨b, List.mem_cons_of_mem a hb, hfind⟩
            | some other =>
                simp only [hp] at h
                obtain ⟨b, hb, hfind⟩ := ih h hrest
                exact ⟨b, List.mem_cons_of_mem a hb, hfind⟩
          · have hp : paramName? p = some name := by
              simpa [hrest, eq_comm] using hname
            simp only [matchSegments, hp] at h
            refine ⟨a, List.mem_cons_self, ?_⟩
            rw [find?_matchSegments_of_notMem h hrest, OrderedMap.find?_insert_self]

theorem ne_nil_of_mem_segments {path a : Bytes} (h : a ∈ segments path) : a ≠ [] := by
  simpa [segments] using (List.mem_filter.mp h).2

/-- A matched path that is not the pattern itself binds every parameter to a nonempty text. -/
theorem find?_routerMatch {pat path : Bytes} {params : StringMap} {name : Bytes}
    (h : routerMatch pat path = some params) (hne : pat ≠ urlDecode path)
    (hname : some name ∈ (segments pat).map paramName?) :
    ∃ a, a ≠ [] ∧ params.find? name = some a := by
  rw [routerMatch, if_neg hne] at h
  obtain ⟨a, ha, hfind⟩ := find?_matchSegments h hname
  exact ⟨a, ne_nil_of_mem_segments ha, hfind⟩

end ExamVan.Http
