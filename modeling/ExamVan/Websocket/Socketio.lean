import ExamVan.Queue.Codec
import Mathlib.Data.List.DropRight

/-!
# Socket messages

`marshal_socketio` escapes the name of an event, and `parse_socketio` finds where the escaped name ends
and takes it as it is written. The payload is what stands between the next comma and the last bracket.
-/

namespace ExamVan.Websocket

open ByteString Queue

structure SocketIOMessage where
  event : Bytes
  payload : Bytes
  deriving DecidableEq

/-- `json_string` -/
def jsonString (s : Bytes) : Bytes := quoted s

/-- `marshal_socketio` -/
def marshalSocketio (event payload : Bytes) : Bytes :=
  str "[" ++ jsonString event ++ str "," ++ payload ++ str "]"

/-- `find_closing_quote`: the text up to the closing quote, and what follows it. -/
def findClosingQuote (s : Bytes) : Option (Bytes × Bytes) := scanString s

/-- `parse_socketio` -/
def parseSocketio (data : Bytes) : Option SocketIOMessage :=
  if data.length < 4 ∨ data.head? ≠ some (chr '[') then none
  else do
    let opening ← findByte (· = chr '"') data
    let (event, behind) ← findClosingQuote opening.tail
    let comma ← findByte (· = chr ',') behind
    let rest := comma.tail.dropWhile fun c => c = chr ' ' || c = chr '\t'
    -- the last bracket is at or before the start, or there is none
    if chr ']' ∈ rest.tail then some ⟨event, (rest.rdropWhile (· ≠ chr ']')).dropLast⟩ else none

variable {event payload : Bytes}

/-- The payload comes back, and the name as it was written. -/
theorem parseSocketio_marshalSocketio (hne : payload ≠ [])
    (hfirst : ∀ c ∈ payload.head?, c ≠ chr ' ' ∧ c ≠ chr '\t') :
    parseSocketio (marshalSocketio event payload) = some ⟨jsonEscape event, payload⟩ := by
  obtain ⟨c, t, rfl⟩ := List.exists_cons_of_ne_nil hne
  obtain ⟨hspace, htab⟩ := hfirst c rfl
  have htext : marshalSocketio event (c :: t) =
      chr '[' :: chr '"' :: (jsonEscape event ++ chr '"' :: chr ',' :: (c :: t ++ [chr ']'])) := by
    simp [marshalSocketio, jsonString, quoted, str]
  have hlength : ¬ (marshalSocketio event (c :: t)).length < 4 := by
    rw [htext]
    simp only [List.length_cons, List.length_append]
    omega
  have hopening : findByte (· = chr '"') (marshalSocketio event (c :: t)) =
      some (chr '"' :: (jsonEscape event ++ chr '"' :: chr ',' :: (c :: t ++ [chr ']']))) := by
    rw [htext, findByte, if_neg (by decide)]
    exact findByte_cons_pos (by decide)
  have hclosing : findClosingQuote (jsonEscape event ++ chr '"' :: chr ',' :: (c :: t ++ [chr ']'])) =
      some (jsonEscape event, chr ',' :: (c :: t ++ [chr ']'])) :=
    scanString_jsonEscape event _
  have hcomma : findByte (· = chr ',') (chr ',' :: (c :: t ++ [chr ']'])) =
      some (chr ',' :: (c :: t ++ [chr ']'])) :=
    findByte_cons_pos (by decide)
  have hrest : (c :: t ++ [chr ']']).dropWhile (fun c => c = chr ' ' || c = chr '\t') =
      c :: t ++ [chr ']'] :=
    List.dropWhile_cons_of_neg (by simp [hspace, htab])
  have hpayload : (c :: t ++ [chr ']']).rdropWhile (· ≠ chr ']') = c :: t ++ [chr ']'] :=
    List.rdropWhile_concat_neg _ _ _ (by simp)
  have hbracket : chr ']' ∈ (c :: t ++ [chr ']']).tail := by
    rw [List.cons_append, List.tail_cons]
    exact List.mem_append_right t (List.mem_singleton_self _)
  have hhead : (marshalSocketio event (c :: t)).head? = some (chr '[') := by
    rw [htext, List.head?_cons]
  rw [parseSocketio, if_neg (not_or.mpr ⟨hlength, not_not.mpr hhead⟩), hopening]
  simp only [Option.bind_eq_bind, Option.bind_some, List.tail_cons, hclosing, hcomma, hrest]
  rw [if_pos hbracket, hpayload, List.dropLast_concat]

theorem jsonEscape_eq_self_iff {s : Bytes} : jsonEscape s = s ↔ Unescaped s :=
  ⟨fun h => unescaped_of_length_le (congrArg List.length h).le, jsonEscape_of_unescaped⟩

/-- A message is read as it was sent if and only if nothing in the name of its event is escaped. -/
theorem parse_marshal_iff (hne : payload ≠ [])
    (hfirst : ∀ c ∈ payload.head?, c ≠ chr ' ' ∧ c ≠ chr '\t') :
    parseSocketio (marshalSocketio event payload) = some ⟨event, payload⟩ ↔
      ∀ c ∈ event, c ≠ chr '"' ∧ c ≠ chr '\\' ∧ 0x20 ≤ c := by
  rw [parseSocketio_marshalSocketio hne hfirst, Option.some.injEq, SocketIOMessage.mk.injEq]
  exact (and_iff_left rfl).trans jsonEscape_eq_self_iff

theorem parse_marshal_refresh :
    parseSocketio (marshalSocketio (str "refresh") (str "[\"a,b]\",\x7b\x7d]")) =
      some ⟨str "refresh", str "[\"a,b]\",\x7b\x7d]"⟩ := by
  refine (parse_marshal_iff (by decide) ?_).mpr (by decide)
  rintro c ⟨⟩
  decide

theorem not_parse_marshal :
    ¬ ∀ event payload : Bytes, payload ≠ [] → (∀ c ∈ payload.head?, c ≠ chr ' ' ∧ c ≠ chr '\t') →
      parseSocketio (marshalSocketio event payload) = some ⟨event, payload⟩ := by
  intro hall
  have hquote := hall (str "a\"b") (str "1") (by decide) (by rintro c ⟨⟩; decide)
  revert hquote
  decide

end ExamVan.Websocket
