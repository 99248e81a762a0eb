import ExamVan.Server.FrontEnd

/-!
# The header lines

The loop over the lines gives every header of a request, or of the part of a request that was cut
off in the middle of a line. Where a name comes twice, the last value stays.
-/

/-!
## How a request arrives

The server looks for the end of the headers in what has come so far. It stops at the first chunk that
brings it, or that brings the text over 16384 bytes.
-/

namespace ExamVan.Server

open ByteString

variable {s : Sent}

/-! ### Line ends -/

theorem ne_of_isTokenByte {c : UInt8} (h : isTokenByte c = true) :
    c ≠ chr ' ' ∧ c ≠ chr ':' ∧ isLinePad c = false := by
  have hnone : ∀ b ∈ [chr ' ', chr ':', chr '\t', 13, 10], isTokenByte b = false := by decide
  have hne : ∀ b ∈ [chr ' ', chr ':', chr '\t', 13, 10], c ≠ b := by
    rintro b hb rfl
    rw [hnone c hb] at h
    cases h
  refine ⟨hne _ (by simp), hne _ (by simp), ?_⟩
  simp [isLinePad, hne (chr ' ') (by simp), hne (chr '\t') (by simp), hne 13 (by simp),
    hne 10 (by simp)]

/-- No line end begins in the text. -/
def NoReturn (w : Bytes) : Prop := (13 : UInt8) ∉ w

theorem NoReturn.append {v w : Bytes} (hv : NoReturn v) (hw : NoReturn w) : NoReturn (v ++ w) :=
  fun h => (List.mem_append.mp h).elim hv hw

theorem NoReturn.cons {c : UInt8} {w : Bytes} (hc : c ≠ 13) (hw : NoReturn w) :
    NoReturn (c :: w) := fun h => (List.mem_cons.mp h).elim (fun h => hc h.symm) hw

theorem NoReturn.of_forall {w : Bytes} {p : UInt8 → Bool} (h : ∀ c ∈ w, p c = true)
    (hp : p 13 = false) : NoReturn w := fun hmem => by
  rw [h _ hmem] at hp
  cases hp

theorem HeaderField.noReturn_name (h : HeaderField) : NoReturn h.name :=
  .of_forall h.token.2 (by decide)

theorem HeaderField.noReturn_rest (h : HeaderField) : NoReturn h.rest := by
  have hblank := NoReturn.of_forall h.blank (by decide)
  refine (NoReturn.append ?_ (.of_forall h.field (by decide))).append ?_
  · exact fun hmem => hblank (List.mem_append_left _ hmem)
  · exact fun hmem => hblank (List.mem_append_right _ hmem)

theorem HeaderField.noReturn_line (h : HeaderField) : NoReturn h.line :=
  h.noReturn_name.append (h.noReturn_rest.cons (by decide))

/-- The first line without its end. -/
def Sent.firstLine (s : Sent) : Bytes := s.method ++ chr ' ' :: (s.target ++ str " HTTP/1.1")

theorem Sent.requestLine_eq (s : Sent) : s.requestLine = s.firstLine ++ crlf := rfl

theorem noReturn_of_visible {w : Bytes} (h : ∀ c ∈ w, (0x20 : UInt8) < c) : NoReturn w := fun hmem =>
  absurd (h _ hmem) (by decide)

theorem Sent.visible_target (s : Sent) : ∀ c ∈ s.target, (0x20 : UInt8) < c := by
  intro c hc
  unfold Sent.target at hc
  rcases List.mem_append.mp hc with hpath | hquery
  · exact (s.pathText c hpath).1
  · split at hquery
    · cases hquery
    next q hq =>
      rcases List.mem_cons.mp hquery with rfl | hc
      · decide
      · exact (s.queryText q hq c hc).1

theorem Sent.noReturn_firstLine (s : Sent) : NoReturn s.firstLine := by
  refine (NoReturn.of_forall s.methodToken.2 (by decide)).append (.cons (by decide) ?_)
  exact (noReturn_of_visible s.visible_target).append (by unfold NoReturn; decide)

theorem findSub_crlf {w : Bytes} (hw : NoReturn w) (tail : Bytes) :
    findSub crlf (w ++ crlf ++ tail) = some (crlf ++ tail) := by
  rw [List.append_assoc, crlf, findSub_append_of_notMem hw]
  exact findSub_of_head (List.prefix_append _ _)

/-- The end of a line is not the end of the headers if a line follows. -/
theorem findSub_crlf2_line {w l : Bytes} (hw : NoReturn w) (hl : NoReturn l) (hne : l ≠ [])
    (tail : Bytes) : findSub crlf2 (w ++ crlf ++ (l ++ tail)) = findSub crlf2 (l ++ tail) := by
  obtain ⟨c, l, rfl⟩ := List.exists_cons_of_ne_nil hne
  have hc : (13 : UInt8) ≠ c := fun h => hl (h ▸ List.mem_cons_self)
  rw [List.append_assoc]
  unfold crlf2 crlf
  rw [List.cons_append, findSub_append_of_notMem hw]
  simp [findSub, hc, List.cons_prefix_cons]

theorem findSub_crlf2_lines {w : Bytes} (hw : NoReturn w) (headers : List HeaderField)
    (tail : Bytes) :
    findSub crlf2 (w ++ crlf ++ ((headers.flatMap fun h => h.line ++ crlf) ++ (crlf ++ tail))) =
      some (crlf2 ++ tail) := by
  induction headers generalizing w with
  | nil =>
      have htext : w ++ crlf ++ (crlf ++ tail) = w ++ (crlf2 ++ tail) := by
        simp [crlf2, List.append_assoc]
      rw [List.flatMap_nil, List.nil_append, htext]
      unfold crlf2 crlf
      rw [List.cons_append, List.cons_append, findSub_append_of_notMem hw]
      exact findSub_of_head (List.prefix_append _ _)
  | cons h headers ih =>
      have hne : h.line ≠ [] := by simp [HeaderField.line]
      have htext : ((h :: headers).flatMap fun h => h.line ++ crlf) ++ (crlf ++ tail) =
          h.line ++ (crlf ++ ((headers.flatMap fun h => h.line ++ crlf) ++ (crlf ++ tail))) := by
        simp [List.append_assoc]
      rw [htext, findSub_crlf2_line hw h.noReturn_line hne, ← List.append_assoc]
      exact ih h.noReturn_line

theorem Sent.findSub_wire (s : Sent) : findSub crlf2 s.wire = some (crlf2 ++ s.body) := by
  have htext : s.wire = s.firstLine ++ crlf ++ (s.headerLines ++ (crlf ++ s.body)) := by
    simp [Sent.wire, Sent.head, Sent.requestLine_eq, List.append_assoc]
  rw [htext]
  exact findSub_crlf2_lines s.noReturn_firstLine s.headers s.body

theorem Sent.length_wire (s : Sent) : s.wire.length = s.head.length + s.body.length := by
  rw [Sent.wire, List.length_append]

theorem Sent.length_head (s : Sent) :
    s.head.length = s.requestLine.length + s.headerLines.length + 2 := by
  simp [Sent.head, crlf, Nat.add_assoc]

/-- The end of the headers is found in a part of the request if all of it is there. -/
theorem Sent.findSub_crlf2_take (s : Sent) (n : Nat) :
    findSub crlf2 (s.wire.take n) =
      if s.head.length ≤ n then some ((crlf2 ++ s.body).take (n - (s.head.length - 4))) else none := by
  have hhead : 4 ≤ s.head.length := by
    rw [s.length_head, s.requestLine_eq, List.length_append]
    simp only [crlf, List.length_cons, List.length_nil]
    omega
  have hlength : s.wire.length - (crlf2 ++ s.body).length = s.head.length - 4 := by
    rw [s.length_wire, List.length_append]
    simp only [crlf2, crlf, List.length_append, List.length_cons, List.length_nil]
    omega
  rw [findSub_take (by simp [crlf2, crlf]) s.findSub_wire, hlength]
  refine if_congr ?_ rfl rfl
  simp only [crlf2, crlf, List.length_append, List.length_cons, List.length_nil]
  omega

/-! ### Where the reading stops -/

theorem joined_append (a b : List Chunk) : joined (a ++ b) = joined a ++ joined b := by
  simp [joined]

theorem joined_cons (c : Chunk) (rest : List Chunk) : joined (c :: rest) = c.1 ++ joined rest := rfl

/-- The headers have been looked for up to this chunk. -/
structure Stops (s : Sent) (chunks : List Chunk) (read : Bytes) (rest : List Chunk) : Prop where
  arrived : ∃ before c, chunks = before ++ c :: rest ∧ read = joined (before ++ [c]) ∧
    (joined before).length < s.head.length ∧ (joined before).length ≤ 16384
  enough : s.head.length ≤ read.length ∨ 16384 < read.length

theorem recvHead_stops (before chunks : List Chunk)
    (hwire : joined (before ++ chunks) = s.wire) (hshort : (joined before).length < s.head.length)
    (hsmall : (joined before).length ≤ 16384) :
    Stops s (before ++ chunks) (recvHead (joined before) chunks).1
      (recvHead (joined before) chunks).2 := by
  induction chunks generalizing before with
  | nil =>
      have hlength := congrArg List.length hwire
      rw [List.append_nil, s.length_wire] at hlength
      omega
  | cons c rest ih =>
      have hsplit : before ++ c :: rest = before ++ [c] ++ rest := List.append_cons _ _ _
      have hnext : joined before ++ c.1 = joined (before ++ [c]) := by simp [joined]
      have hread : joined (before ++ [c]) <+: s.wire := by
        have hjoined := joined_append (before ++ [c]) rest
        rw [← hwire, hsplit, hjoined]
        exact List.prefix_append _ _
      have harrived : ∃ before' c', before ++ c :: rest = before' ++ c' :: rest ∧
          joined (before ++ [c]) = joined (before' ++ [c']) ∧
          (joined before').length < s.head.length ∧ (joined before').length ≤ 16384 :=
        ⟨before, c, rfl, rfl, hshort, hsmall⟩
      have hfound : (findSub crlf2 (joined (before ++ [c]))).isSome =
          decide (s.head.length ≤ (joined (before ++ [c])).length) := by
        rw [List.prefix_iff_eq_take.mp hread, s.findSub_crlf2_take,
          ← List.prefix_iff_eq_take.mp hread]
        split <;> simp_all only [Option.isSome_some, Option.isSome_none, decide_true, decide_false]
      rw [recvHead]
      simp only [hnext, hfound]
      by_cases hhead : s.head.length ≤ (joined (before ++ [c])).length
      · simp only [hhead, decide_true, if_true]
        exact ⟨harrived, .inl hhead⟩
      · simp only [hhead, decide_false, Bool.false_eq_true, if_false]
        by_cases hlarge : 16384 < (joined (before ++ [c])).length
        · rw [if_pos hlarge]
          exact ⟨harrived, .inr hlarge⟩
        · rw [if_neg hlarge, hsplit]
          exact ih (before ++ [c]) (by rw [← hwire, hsplit]) (Nat.not_le.mp hhead) (Nat.not_lt.mp hlarge)

end ExamVan.Server

namespace ExamVan.Server

open ByteString Http Queue

/-! ### Lines -/

theorem lines_cons {c : UInt8} (hc : c ≠ 13) (t : Bytes) :
    lines (c :: t) = match lines t with
      | [] => [[c]]
      | l :: ls => (c :: l) :: ls := by
  cases t with
  | nil => simp [lines]
  | cons d u =>
      rw [lines]
      exact if_neg fun h => hc h.1

theorem lines_line {l : Bytes} (hl : NoReturn l) (t : Bytes) :
    lines (l ++ (crlf ++ t)) = l :: lines t := by
  induction l with
  | nil => simp [crlf, lines]
  | cons c l ih =>
      have hc : c ≠ 13 := fun h => hl (h ▸ List.mem_cons_self)
      rw [List.cons_append, lines_cons hc, ih fun h => hl (List.mem_cons_of_mem c h)]

/-- A last line without its end, or with half of it. -/
theorem lines_last {l : Bytes} (hl : NoReturn l) {e : Bytes} (he : e = [] ∨ e = [13])
    (hne : l ++ e ≠ []) : lines (l ++ e) = [l ++ e] := by
  induction l with
  | nil =>
      obtain rfl | rfl := he
      · exact absurd rfl hne
      · simp [lines]
  | cons c l ih =>
      have hc : c ≠ 13 := fun h => hl (h ▸ List.mem_cons_self)
      rw [List.cons_append, lines_cons hc]
      by_cases hrest : l ++ e = []
      · rw [hrest]
        rfl
      · rw [ih (fun h => hl (List.mem_cons_of_mem c h)) hrest]

/-! ### One header -/

theorem HeaderField.colon_notMem (h : HeaderField) : ∀ c ∈ h.name, decide (c = chr ':') = false :=
  fun c hc => decide_eq_false (ne_of_isTokenByte (h.token.2 c hc)).2.1

theorem trimLine_of_solid {s : Bytes} (hs : ∀ c ∈ s, isLinePad c = false) : trimLine s = s := by
  have hpad : ∀ c, isLinePad c = false → isPad c = false := by
    intro c hc
    simp only [isLinePad, Bool.or_eq_false_iff] at hc
    simp [isPad, hc.1.1.1, hc.1.1.2]
  unfold trimLine
  cases s with
  | nil => rfl
  | cons c s =>
      have hhead : isLinePad c = false := hs c List.mem_cons_self
      rw [List.dropWhile_cons_of_neg (by simp [hpad c hhead])]
      simp only [List.all_cons, hhead, Bool.false_and, Bool.false_eq_true, if_false]
      refine List.rdropWhile_eq_self_iff.mpr fun hne => ?_
      rw [hs _ (List.getLast_mem hne)]
      exact Bool.false_ne_true

theorem HeaderField.trimLine_name (h : HeaderField) : trimLine h.name = h.name :=
  trimLine_of_solid fun c hc => (ne_of_isTokenByte (h.token.2 c hc)).2.2

theorem HeaderField.not_all_isPad_name (h : HeaderField) : h.name.all isPad = false := by
  obtain ⟨c, name, hname⟩ := List.exists_cons_of_ne_nil h.token.1
  have hc := ne_of_isTokenByte (h.token.2 c (hname ▸ List.mem_cons_self))
  have hpad : isPad c = false := by
    have hline := hc.2.2
    simp only [isLinePad, Bool.or_eq_false_iff] at hline
    simp [isPad, hline.1.1.1, hline.1.1.2]
  rw [hname, List.all_cons, hpad, Bool.false_and]

theorem trimLine_padded {lead value trail : Bytes} (hlead : ∀ c ∈ lead, isPad c = true)
    (htrail : ∀ c ∈ trail, isPad c = true) (hfield : ∀ c ∈ value, isFieldByte c = true)
    (hhead : ∀ c ∈ value.head?, isPad c = false) (hlast : ∀ c ∈ value.getLast?, isPad c = false) :
    trimLine (lead ++ value ++ trail) = value := by
  have hline : ∀ {c : UInt8}, isPad c = true → isLinePad c = true := by
    intro c hc
    simp only [isPad, Bool.or_eq_true] at hc
    simp only [isLinePad, Bool.or_eq_true]
    exact .inl (.inl hc)
  unfold trimLine
  rw [List.append_assoc, List.dropWhile_append_of_pos hlead]
  cases value with
  | nil =>
      have hnil : trail.dropWhile isPad = [] := List.dropWhile_eq_nil_iff.mpr htrail
      simp [hnil]
  | cons c value =>
      have hpad : isPad c = false := hhead c rfl
      have hsolid : ∀ {b : UInt8}, isPad b = false → isFieldByte b = true → isLinePad b = false := by
        intro b hb hfield
        have h13 : b ≠ 13 := fun h => by rw [h] at hfield; exact absurd hfield (by decide)
        have h10 : b ≠ 10 := fun h => by rw [h] at hfield; exact absurd hfield (by decide)
        simp only [isPad] at hb
        simp [isLinePad, hb, h13, h10]
      have hc : isLinePad c = false := hsolid hpad (hfield c List.mem_cons_self)
      rw [List.cons_append, List.dropWhile_cons_of_neg (by simp [hpad])]
      simp only [List.all_cons, hc, Bool.false_and, Bool.false_eq_true, if_false]
      rw [← List.cons_append, rdropWhile_append_of_pos fun b hb => hline (htrail b hb)]
      refine List.rdropWhile_eq_self_iff.mpr fun hne => ?_
      have hmem := List.getLast_mem hne
      have hsome := hlast _ (List.getLast?_eq_some_getLast hne)
      rw [hsolid hsome (hfield _ hmem)]
      exact Bool.false_ne_true

theorem HeaderField.trimLine_rest (h : HeaderField) : trimLine h.rest = h.value :=
  trimLine_padded (fun c hc => h.blank c (List.mem_append_left _ hc))
    (fun c hc => h.blank c (List.mem_append_right _ hc)) h.field h.trimmed.1 h.trimmed.2

/-- A line that reaches past the colon gives the name and what there is of the value. -/
theorem headerOf_colon (h : HeaderField) (t : Bytes) :
    headerOf (h.name ++ chr ':' :: t) = some (h.name, trimLine t) := by
  have hfind : findByte (· = chr ':') (h.name ++ chr ':' :: t) = some (chr ':' :: t) := by
    rw [findByte_append h.colon_notMem]
    exact findByte_cons_pos (by simp)
  have htake : (h.name ++ chr ':' :: t).takeWhile (· ≠ chr ':') = h.name := by
    rw [List.takeWhile_append_of_pos, List.takeWhile_cons_of_neg (by simp), List.append_nil]
    exact fun c hc => by simpa using (ne_of_isTokenByte (h.token.2 c hc)).2.1
  unfold headerOf
  simp only [hfind, htake, h.not_all_isPad_name, Bool.false_eq_true, if_false, h.trimLine_name,
    List.tail_cons]

theorem headerOf_line (h : HeaderField) : headerOf h.line = some (h.name, h.value) := by
  rw [HeaderField.line, headerOf_colon, h.trimLine_rest]

theorem headerOf_of_notMem {l : Bytes} (h : chr ':' ∉ l) : headerOf l = none := by
  have hfind : findByte (· = chr ':') l = none := by
    rw [← List.append_nil l, findByte_append]
    · rfl
    · rintro c hc
      refine decide_eq_false ?_
      rintro rfl
      exact h hc
  unfold headerOf
  rw [hfind]

/-! ### The headers of a part -/

/-- The headers that `k` bytes of their lines give. -/
def received : Nat → List HeaderField → List (Bytes × Bytes)
  | _, [] => []
  | k, h :: rest =>
      if h.line.length + 2 ≤ k then (h.name, h.value) :: received (k - (h.line.length + 2)) rest
      else if k ≤ h.name.length then []
      else [(h.name, trimLine ((h.rest ++ crlf).take (k - (h.name.length + 1))))]

def linesText (headers : List HeaderField) : Bytes :=
  (headers.flatMap fun h => h.line ++ crlf) ++ crlf

theorem linesText_cons (h : HeaderField) (rest : List HeaderField) :
    linesText (h :: rest) = h.line ++ (crlf ++ linesText rest) := by
  simp [linesText, List.append_assoc]

/-- The headers in a text. -/
def headersIn (text : Bytes) : List (Bytes × Bytes) :=
  ((lines text).takeWhile (· ≠ [])).filterMap headerOf

theorem headersIn_single {l : Bytes} (hlines : lines l = [l]) (hne : l ≠ []) :
    headersIn l = (headerOf l).toList := by
  unfold headersIn
  rw [hlines, List.takeWhile_cons_of_pos (by simpa using hne), List.takeWhile_nil]
  cases h : headerOf l <;> simp [h]

theorem headersIn_line {l : Bytes} (hl : NoReturn l) (hne : l ≠ []) (t : Bytes) :
    headersIn (l ++ (crlf ++ t)) = (headerOf l).toList ++ headersIn t := by
  unfold headersIn
  rw [lines_line hl, List.takeWhile_cons_of_pos (by simpa using hne)]
  cases h : headerOf l <;> simp [h]

theorem HeaderField.length_line (h : HeaderField) :
    h.line.length = h.name.length + 1 + h.rest.length := by
  simp only [HeaderField.line, List.length_append, List.length_cons]
  omega

/-- A line that is cut off. -/
theorem headersIn_cut (h : HeaderField) {k : Nat} (hk : k < h.line.length + 2) :
    headersIn ((h.line ++ crlf).take k) =
      if k ≤ h.name.length then []
      else [(h.name, trimLine ((h.rest ++ crlf).take (k - (h.name.length + 1))))] := by
  have hlines : ∀ l, (h.line ++ crlf).take k = l → l ≠ [] → lines l = [l] := by
    rintro l hl hne
    by_cases hle : k ≤ h.line.length
    · rw [List.take_append_of_le_length hle] at hl
      have hreturn : NoReturn l := fun hmem =>
        h.noReturn_line (List.mem_of_mem_take (hl ▸ hmem))
      have hlast := lines_last hreturn (.inl rfl) (by simpa using hne)
      rwa [List.append_nil] at hlast
    · obtain rfl : k = h.line.length + 1 := by omega
      have hhalf : l = h.line ++ [13] := by
        rw [← hl, List.take_length_add_append]
        rfl
      rw [hhalf]
      exact lines_last h.noReturn_line (.inr rfl) (by simp)
  have hsplit : h.line ++ crlf = h.name ++ chr ':' :: (h.rest ++ crlf) := by
    simp [HeaderField.line, List.append_assoc]
  by_cases hname : k ≤ h.name.length
  · rw [if_pos hname]
    have htake : (h.line ++ crlf).take k = h.name.take k := by
      rw [hsplit, List.take_append_of_le_length hname]
    by_cases hnil : (h.line ++ crlf).take k = []
    · rw [hnil]
      rfl
    · rw [headersIn_single (hlines _ rfl hnil) hnil, htake, headerOf_of_notMem, Option.toList_none]
      intro hmem
      exact absurd rfl (of_decide_eq_false (h.colon_notMem _ (List.mem_of_mem_take hmem)))
  · rw [if_neg hname]
    have htake : (h.line ++ crlf).take k =
        h.name ++ chr ':' :: (h.rest ++ crlf).take (k - (h.name.length + 1)) := by
      obtain ⟨m, rfl⟩ : ∃ m, k = h.name.length + (m + 1) := ⟨k - h.name.length - 1, by omega⟩
      have hm : h.name.length + (m + 1) - (h.name.length + 1) = m := by omega
      rw [hsplit, List.take_length_add_append, List.take_succ_cons, hm]
    have hnil : (h.line ++ crlf).take k ≠ [] := by simp [htake]
    rw [headersIn_single (hlines _ rfl hnil) hnil, htake, headerOf_colon, Option.toList_some]

theorem headersIn_take (headers : List HeaderField) {k : Nat}
    (hk : k < (linesText headers).length) :
    headersIn ((linesText headers).take k) = received k headers := by
  induction headers generalizing k with
  | nil =>
      have hsmall : k = 0 ∨ k = 1 := by
        simp only [linesText, crlf, List.flatMap_nil, List.nil_append, List.length_cons,
          List.length_nil] at hk
        omega
      obtain rfl | rfl := hsmall <;> rfl
  | cons h rest ih =>
      rw [linesText_cons] at hk ⊢
      rw [received]
      by_cases hfull : h.line.length + 2 ≤ k
      · obtain ⟨m, rfl⟩ := Nat.exists_eq_add_of_le hfull
        have hm : m < (linesText rest).length := by
          simp only [crlf, List.length_append, List.length_cons, List.length_nil] at hk
          omega
        have htake : (h.line ++ (crlf ++ linesText rest)).take (h.line.length + 2 + m) =
            h.line ++ (crlf ++ (linesText rest).take m) := by
          rw [Nat.add_assoc, List.take_length_add_append]
          congr 1
          change (crlf ++ linesText rest).take (crlf.length + m) = _
          exact List.take_length_add_append m
        rw [if_pos hfull, htake, headersIn_line h.noReturn_line (by simp [HeaderField.line]),
          headerOf_line, ih hm, Nat.add_sub_cancel_left]
        rfl
      · have hcut : k ≤ (h.line ++ crlf).length := by
          simp only [crlf, List.length_append, List.length_cons, List.length_nil]
          omega
        rw [if_neg hfull, ← List.append_assoc, List.take_append_of_le_length hcut,
          headersIn_cut h (Nat.not_le.mp hfull)]

theorem two_le_length_linesText (headers : List HeaderField) : 2 ≤ (linesText headers).length := by
  simp [linesText, crlf]

theorem length_linesText_cons (h : HeaderField) (rest : List HeaderField) :
    (linesText (h :: rest)).length = h.line.length + 2 + (linesText rest).length := by
  rw [linesText_cons]
  simp only [crlf, List.length_append, List.length_cons, List.length_nil]
  omega

/-- Every header is there if all lines are. -/
theorem received_all {headers : List HeaderField} {k : Nat}
    (hk : (linesText headers).length ≤ k + 2) :
    received k headers = headers.map fun h => (h.name, h.value) := by
  induction headers generalizing k with
  | nil => rfl
  | cons h rest ih =>
      have htwo := two_le_length_linesText rest
      rw [length_linesText_cons] at hk
      rw [received, if_pos (by omega), ih (by omega), List.map_cons]

/-- The end of the last line may be missing. -/
theorem received_region {headers : List HeaderField} (hne : headers ≠ []) :
    received ((linesText headers).length - 4) headers = headers.map fun h => (h.name, h.value) := by
  induction headers with
  | nil => exact absurd rfl hne
  | cons h rest ih =>
      rw [length_linesText_cons]
      by_cases hrest : rest = []
      · subst hrest
        have hk : h.line.length + 2 + (linesText []).length - 4 = h.line.length := by
          simp [linesText, crlf]
        have hlength := h.length_line
        have hvalue : h.line.length - (h.name.length + 1) = h.rest.length := by omega
        rw [hk, received, if_neg (by omega), if_neg (by omega), hvalue, List.take_left,
          h.trimLine_rest]
        rfl
      · obtain ⟨h', rest', rfl⟩ := List.exists_cons_of_ne_nil hrest
        have hfour : 4 ≤ (linesText (h' :: rest')).length := by
          have htwo := two_le_length_linesText rest'
          rw [length_linesText_cons]
          omega
        have hk : h.line.length + 2 + (linesText (h' :: rest')).length - 4 -
            (h.line.length + 2) = (linesText (h' :: rest')).length - 4 := by omega
        rw [received, if_pos (by omega), hk, ih hrest]
        rfl

/-! ### The map of headers -/

/-- The last value under a name. -/
def lastValue (headers : List (Bytes × Bytes)) (name : Bytes) : Option Bytes :=
  (headers.reverse.find? fun h => h.1 = name).map Prod.snd

theorem find?_insertAll (headers : List (Bytes × Bytes)) (m : StringMap) (name : Bytes) :
    (m.insertAll headers).find? name = (lastValue headers name).or (m.find? name) := by
  induction headers generalizing m with
  | nil => rfl
  | cons h rest ih =>
      obtain ⟨k, v⟩ := h
      rw [OrderedMap.insertAll_cons, ih]
      unfold lastValue
      rw [List.reverse_cons, List.find?_append]
      cases (rest.reverse.find? fun h => h.1 = name) with
      | some found => rfl
      | none =>
          by_cases hk : k = name
          · subst hk
            simp
          · simp [hk, OrderedMap.find?_insert_of_ne (Ne.symm hk)]

theorem Sent.headers_ne_nil (s : Sent) : s.headers ≠ [] := by
  obtain ⟨h, hh, -⟩ := s.announced
  exact List.ne_nil_of_mem hh

theorem Sent.wire_eq (s : Sent) : s.wire = s.firstLine ++ crlf ++ (linesText s.headers ++ s.body) := by
  simp [Sent.wire, Sent.head, Sent.requestLine_eq, Sent.headerLines, linesText, List.append_assoc]

theorem Sent.length_head_eq (s : Sent) :
    s.head.length = s.requestLine.length + (linesText s.headers).length := by
  simp [Sent.head, Sent.headerLines, linesText, List.append_assoc]

theorem headersIn_headerText (s : Sent) (n : Nat) :
    headersIn (headerText (s.wire.take n)) = received (n - s.requestLine.length) s.headers := by
  have hfind : findSub crlf s.wire = some (crlf ++ (linesText s.headers ++ s.body)) := by
    rw [s.wire_eq]
    exact findSub_crlf s.noReturn_firstLine _
  have hline : s.requestLine.length = s.firstLine.length + 2 := by
    simp [Sent.requestLine_eq, crlf]
  have hlength : s.wire.length - (crlf ++ (linesText s.headers ++ s.body)).length =
      s.firstLine.length := by
    rw [s.wire_eq]
    simp only [List.length_append]
    omega
  have hfirst := findSub_take (by simp [crlf]) hfind n
  rw [hlength] at hfirst
  unfold headerText
  rw [hfirst]
  have hhead := s.length_head_eq
  by_cases hn : s.requestLine.length ≤ n
  · have htext : ((crlf ++ (linesText s.headers ++ s.body)).take (n - s.firstLine.length)).drop 2 =
        (linesText s.headers ++ s.body).take (n - s.requestLine.length) := by
      have hdrop : (crlf ++ (linesText s.headers ++ s.body)).drop 2 =
          linesText s.headers ++ s.body := rfl
      have hcount : n - s.firstLine.length - 2 = n - s.requestLine.length := by omega
      rw [List.drop_take, hdrop, hcount]
    have hlong : s.firstLine.length + crlf.length ≤ n := by
      simpa [hline, crlf] using hn
    simp only [if_pos hlong, htext, s.findSub_crlf2_take]
    by_cases hall : s.head.length ≤ n
    · have htwo := two_le_length_linesText s.headers
      have hregion : ((linesText s.headers ++ s.body).take (n - s.requestLine.length)).length -
          ((crlf2 ++ s.body).take (n - (s.head.length - 4))).length =
            (linesText s.headers).length - 4 := by
        simp only [crlf2, crlf, List.length_take, List.length_append, List.length_cons,
          List.length_nil]
        omega
      simp only [if_pos hall, hregion]
      rw [List.take_take, Nat.min_eq_left (by omega),
        List.take_append_of_le_length (Nat.sub_le _ _), headersIn_take _ (by omega),
        received_region s.headers_ne_nil, received_all (by omega)]
    · simp only [if_neg hall]
      rw [List.take_append_of_le_length (by omega), headersIn_take _ (by omega)]
  · have hshort : ¬ s.firstLine.length + crlf.length ≤ n := by
      simpa [hline, crlf] using hn
    have hzero : n - s.requestLine.length = 0 := by omega
    obtain ⟨h, rest, hheaders⟩ := List.exists_cons_of_ne_nil s.headers_ne_nil
    simp only [if_neg hshort, hzero, hheaders]
    rw [received, if_neg (by omega), if_pos (Nat.zero_le _)]
    rfl

theorem find?_parseHeaders (s : Sent) (n : Nat) (name : Bytes) :
    (parseHeaders (s.wire.take n)).find? name =
      lastValue (received (n - s.requestLine.length) s.headers) name := by
  have hparse : parseHeaders (s.wire.take n) =
      OrderedMap.empty.insertAll (headersIn (headerText (s.wire.take n))) := rfl
  rw [hparse, find?_insertAll, headersIn_headerText]
  exact Option.or_none

end ExamVan.Server
