import ExamVan.Server.FrontEnd

/-!
# Static files

`static_path_safe` looks at a path that has been decoded up to five times. The posix server opens the
decoded path and uWebSockets the path as it was sent. Decoding keeps every dot and every NUL byte, so
what is not in the one is not in the other.
-/

namespace ExamVan.Server

open ByteString Queue

/-! ### Decoding a path -/

/-- One round of the decoding loop. -/
def decodeRound : Bytes → Bytes
  | [] => []
  | c :: h :: l :: t =>
      if c = chr '%' then
        match hexValue h, hexValue l with
        | some a, some b => UInt8.ofNat (a * 16 + b) :: decodeRound t
        | _, _ => c :: decodeRound (h :: l :: t)
      else c :: decodeRound (h :: l :: t)
  | c :: t => c :: decodeRound t

/-- The decoding loop: it ends when nothing changes, and fails on a NUL byte. -/
def decodeLoop : Nat → Bytes → Option Bytes
  | 0, dec => some dec
  | n + 1, dec =>
      let nd := decodeRound dec
      if nd = dec then some dec else if 0 ∈ nd then none else decodeLoop n nd

/-- The tests on a decoded path that both functions make. -/
def isHarmless (dec : Bytes) : Bool :=
  let low := dec.map tolower
  findSub (str "..") dec = none && !dec.contains 0 && findSub (str "%2e") low = none &&
    findSub (str "%252e") low = none

/-- `static_path_safe` -/
def staticPathSafe (path : Bytes) : Bool :=
  match decodeLoop 5 path with
  | none => false
  | some dec => isHarmless dec && isStaticPath dec

/-- The file that `try_serve_static` opens. -/
def tryServeStatic (path : Bytes) : Option Bytes :=
  if !staticPathSafe path then none
  else
    match decodeLoop 5 path with
    | none => none
    | some dec =>
        if !isHarmless dec then none
        else
          let fp := if (str "/static/").isPrefixOf dec then some (str "." ++ dec)
            else if (str "/proto/").isPrefixOf dec then some (str "." ++ dec)
            else if dec = str "/favicon.ico" then some (str "./static/favicon.png")
            else none
          fp.filter fun fp => findSub (str "..") fp = none

/-- The file that the handler of uWebSockets opens. -/
def uwsStatic (path : Bytes) : Option Bytes :=
  if !isStaticPath path || !staticPathSafe path then none
  else if path = str "/favicon.ico" then some (str "./static/favicon.png")
  else some (str "." ++ path)

/-! ### What decoding keeps -/

variable {c h l : UInt8} {s t pre post path dec fp : Bytes}

theorem decodeRound_cons (hc : c ≠ chr '%') (t : Bytes) : decodeRound (c :: t) = c :: decodeRound t := by
  rcases t with _ | ⟨h, _ | ⟨l, t⟩⟩
  · rfl
  · rfl
  · rw [decodeRound, if_neg hc]

theorem decodeRound_of_not_hex (hhex : hexValue h = none ∨ hexValue l = none) (t : Bytes) :
    decodeRound (c :: h :: l :: t) = c :: decodeRound (h :: l :: t) := by
  rw [decodeRound]
  split_ifs
  · rcases hhex with hno | hno
    · rw [hno]
    · rw [hno]
      cases hexValue h <;> rfl
  · rfl

/-- A byte that is no part of an escape parts the text. -/
theorem decodeRound_append_cons (hc : c ≠ chr '%') (hhex : hexValue c = none) (pre post : Bytes) :
    decodeRound (pre ++ c :: post) = decodeRound pre ++ c :: decodeRound post := by
  induction pre using decodeRound.induct with
  | case1 => exact decodeRound_cons hc post
  | case2 h l t a b ha hb ih =>
      rw [List.cons_append, List.cons_append, List.cons_append, decodeRound, decodeRound, if_pos rfl,
        if_pos rfl, ha, hb, ih]
      rfl
  | case3 h l t hno ih =>
      have hnone : hexValue h = none ∨ hexValue l = none := by
        cases ha : hexValue h with
        | none => exact .inl rfl
        | some a =>
            cases hb : hexValue l with
            | none => exact .inr rfl
            | some b => exact absurd hb (hno a b ha)
      rw [decodeRound_of_not_hex hnone, List.cons_append, List.cons_append, List.cons_append,
        decodeRound_of_not_hex hnone, ← List.cons_append, ← List.cons_append, ih]
      rfl
  | case4 d h l t hd ih =>
      rw [decodeRound_cons hd, List.cons_append, decodeRound_cons hd, ih]
      rfl
  | case5 d t hshort ih =>
      have hkept : decodeRound (d :: t) = d :: decodeRound t := by
        rcases t with _ | ⟨h, _ | ⟨l, t⟩⟩
        · rfl
        · rfl
        · exact absurd rfl (hshort h l t)
      rw [hkept, List.cons_append, List.cons_append, ← ih]
      rcases t with _ | ⟨h, _ | ⟨l, t⟩⟩
      · rcases post with _ | ⟨e, post⟩
        · rfl
        · exact decodeRound_of_not_hex (.inl hhex) post
      · exact decodeRound_of_not_hex (.inr hhex) post
      · exact absurd rfl (hshort h l t)

theorem mem_decodeRound (hc : c ≠ chr '%') (hhex : hexValue c = none) (h : c ∈ s) : c ∈ decodeRound s := by
  obtain ⟨pre, post, rfl⟩ := List.append_of_mem h
  rw [decodeRound_append_cons hc hhex]
  exact List.mem_append_right _ List.mem_cons_self

/-- Two dots that stand together do so in a path that has been decoded. -/
theorem findSub_dots_decodeRound (h : findSub (str "..") (decodeRound s) = none) :
    findSub (str "..") s = none := by
  cases hfind : findSub (str "..") s with
  | none => rfl
  | some d =>
      obtain ⟨pre, rfl, post, rfl⟩ := exists_of_findSub hfind
      have htext : decodeRound (pre ++ (str ".." ++ post)) =
          decodeRound pre ++ (str ".." ++ decodeRound post) := by
        have hdot : decodeRound (chr '.' :: post) = chr '.' :: decodeRound post :=
          decodeRound_cons (by decide) post
        change decodeRound (pre ++ chr '.' :: chr '.' :: post) = _
        rw [decodeRound_append_cons (by decide) (by decide), hdot]
        rfl
      have hsome := isSome_findSub_append (str "..") (decodeRound pre) (decodeRound post)
      rw [← htext, h] at hsome
      cases hsome

/-- What is not in the decoded path was not in the path. -/
theorem harmless_of_decodeLoop {n : Nat} (h : decodeLoop n s = some dec) (hdots : findSub (str "..") dec = none)
    (hnul : 0 ∉ dec) : findSub (str "..") s = none ∧ 0 ∉ s := by
  induction n generalizing s with
  | zero =>
      cases h
      exact ⟨hdots, hnul⟩
  | succ n ih =>
      rw [decodeLoop] at h
      split_ifs at h
      · cases h
        exact ⟨hdots, hnul⟩
      · obtain ⟨hdots', hnul'⟩ := ih h
        exact ⟨findSub_dots_decodeRound hdots', fun hmem =>
          hnul' (mem_decodeRound (by decide) (by decide) hmem)⟩

/-! ### Files that are opened -/

/-- A file below one of the two directories. -/
structure BelowStatic (fp : Bytes) : Prop where
  directory : str "./static/" <+: fp ∨ str "./proto/" <+: fp
  dots : findSub (str "..") fp = none
  nul : 0 ∉ fp

theorem belowStatic_favicon : BelowStatic (str "./static/favicon.png") :=
  ⟨.inl (by decide), by decide, by decide⟩

theorem belowStatic_dot (hdirectory : (str "/static/").isPrefixOf path = true ∨
    (str "/proto/").isPrefixOf path = true) (hdots : findSub (str "..") path = none) (hnul : 0 ∉ path) :
    BelowStatic (str "." ++ path) where
  directory := by
    rw [List.isPrefixOf_iff_prefix, List.isPrefixOf_iff_prefix] at hdirectory
    refine hdirectory.imp ?_ ?_ <;> rintro ⟨t, rfl⟩ <;> exact ⟨t, rfl⟩
  dots := by
    have hslash : ∃ t, path = chr '/' :: t := by
      rw [List.isPrefixOf_iff_prefix, List.isPrefixOf_iff_prefix] at hdirectory
      rcases hdirectory with ⟨t, rfl⟩ | ⟨t, rfl⟩ <;> exact ⟨_, rfl⟩
    obtain ⟨t, rfl⟩ := hslash
    have hno : ¬ str ".." <+: chr '.' :: chr '/' :: t := by
      simp [str, chr, List.cons_prefix_cons]
    change findSub (str "..") (chr '.' :: chr '/' :: t) = none
    rw [findSub, if_neg hno]
    exact hdots
  nul := by
    rw [List.mem_append, not_or]
    exact ⟨by decide, hnul⟩

theorem isHarmless_eq_true (h : isHarmless dec = true) : findSub (str "..") dec = none ∧ 0 ∉ dec := by
  simp only [isHarmless, Bool.and_eq_true, decide_eq_true_eq, Bool.not_eq_true', List.contains_eq_mem,
    decide_eq_false_iff_not] at h
  exact ⟨h.1.1.1, h.1.1.2⟩

theorem belowStatic_tryServeStatic (h : tryServeStatic path = some fp) : BelowStatic fp := by
  unfold tryServeStatic at h
  split at h
  · cases h
  · cases hdec : decodeLoop 5 path with
    | none =>
        rw [hdec] at h
        cases h
    | some dec =>
        rw [hdec] at h
        dsimp only at h
        split at h
        · cases h
        · next hharmless =>
            obtain ⟨hdots, hnul⟩ := isHarmless_eq_true (by simpa using hharmless)
            obtain ⟨hopened, -⟩ := Option.filter_eq_some_iff.mp h
            split_ifs at hopened with hstatic hproto
            · cases hopened
              exact belowStatic_dot (.inl hstatic) hdots hnul
            · cases hopened
              exact belowStatic_dot (.inr hproto) hdots hnul
            · cases hopened
              exact belowStatic_favicon

theorem belowStatic_uwsStatic (h : uwsStatic path = some fp) : BelowStatic fp := by
  unfold uwsStatic at h
  split_ifs at h with hrefused hfavicon
  · cases h
    exact belowStatic_favicon
  · cases h
    simp only [Bool.or_eq_true, Bool.not_eq_true', not_or, Bool.not_eq_false] at hrefused
    obtain ⟨hpath, hsafe⟩ := hrefused
    have hdirectory : (str "/static/").isPrefixOf path = true ∨ (str "/proto/").isPrefixOf path = true := by
      simpa [isStaticPath, hfavicon] using hpath
    unfold staticPathSafe at hsafe
    cases hdec : decodeLoop 5 path with
    | none =>
        rw [hdec] at hsafe
        cases hsafe
    | some dec =>
        rw [hdec] at hsafe
        obtain ⟨hdots, hnul⟩ := isHarmless_eq_true (Bool.and_eq_true _ _ ▸ hsafe).1
        obtain ⟨hpathDots, hpathNul⟩ := harmless_of_decodeLoop hdec hdots hnul
        exact belowStatic_dot hdirectory hpathDots hpathNul

/-- Whatever the path, the files that the two servers open are below the two directories, and for a path
that `static_path_safe` rejects none is opened. -/
theorem static_files_contained (path : Bytes) :
    (∀ fp, tryServeStatic path = some fp ∨ uwsStatic path = some fp → BelowStatic fp) ∧
      (staticPathSafe path = false → tryServeStatic path = none ∧ uwsStatic path = none) := by
  refine ⟨fun fp => ?_, fun hunsafe => ?_⟩
  · rintro (h | h)
    · exact belowStatic_tryServeStatic h
    · exact belowStatic_uwsStatic h
  · simp [tryServeStatic, uwsStatic, hunsafe]

theorem static_files_contained_css : BelowStatic (str "./static/a b.css") :=
  (static_files_contained (str "/static/a%2520b.css")).1 _ (.inl (by decide))

end ExamVan.Server
