import ExamVan.Api.Body
import ExamVan.Auth.Otp

/-!
# Forms that are sent and read

`url_encode` leaves no separator in a name or a value, and `url_decode` undoes it, so `parse_form`
reads every form as the map that was sent.
-/

namespace ExamVan.Auth

open Api ByteString Queue

variable {c : UInt8}

theorem urlDecode_upperHex (c : UInt8) (t : Bytes) :
    urlDecode (chr '%' :: upperHex (c / 16) :: upperHex (c % 16) :: t) = c :: urlDecode t := by
  have hdigits : ∀ c : UInt8, hexValue (upperHex (c / 16)) = some (c.toNat / 16) ∧
      hexValue (upperHex (c % 16)) = some (c.toNat % 16) :=
    forall_byte (by decide)
  obtain ⟨hhigh, hlow⟩ := hdigits c
  have hbyte : c.toNat / 16 * 16 + c.toNat % 16 = c.toNat := by omega
  rw [urlDecode_percent hhigh hlow, hbyte, UInt8.ofNat_toNat]

theorem urlEncode_cons (c : UInt8) (s : Bytes) :
    urlEncode (c :: s) =
      (if isUnreserved c then [c] else [chr '%', upperHex (c / 16), upperHex (c % 16)]) ++ urlEncode s :=
  rfl

/-- Whatever follows, an encoded text is read as itself. -/
theorem urlDecode_append (s t : Bytes) : urlDecode (urlEncode s ++ t) = s ++ urlDecode t := by
  induction s with
  | nil => rfl
  | cons c s ih =>
      rw [urlEncode_cons, List.append_assoc]
      split_ifs with hplain
      · have hkept : ∀ c : UInt8, isUnreserved c = true → c ≠ chr '+' ∧ c ≠ chr '%' :=
          forall_byte (by decide)
        obtain ⟨hplus, hpercent⟩ := hkept c hplain
        rw [List.singleton_append, urlDecode_cons hplus hpercent, ih, List.cons_append]
      · rw [List.cons_append, List.cons_append, List.cons_append, List.nil_append, urlDecode_upperHex, ih,
          List.cons_append]

theorem urlDecode_urlEncode (s : Bytes) : urlDecode (urlEncode s) = s := by
  have happend := urlDecode_append s []
  rw [List.append_nil] at happend
  exact happend.trans (List.append_nil s)

/-- Only unreserved bytes, percent signs and digits are written. -/
theorem notMem_urlEncode (hreserved : isUnreserved c = false) (hpercent : c ≠ chr '%') (s : Bytes) :
    c ∉ urlEncode s := by
  have hdigits : ∀ d : UInt8, isUnreserved (upperHex (d / 16)) = true ∧
      isUnreserved (upperHex (d % 16)) = true :=
    forall_byte (by decide)
  have hne : ∀ {d : UInt8}, isUnreserved d = true → c ≠ d := by
    rintro d hd rfl
    rw [hreserved] at hd
    cases hd
  rw [urlEncode, List.mem_flatMap]
  rintro ⟨d, -, hmem⟩
  split_ifs at hmem with hplain
  · exact hne hplain (List.mem_singleton.mp hmem)
  · rcases List.mem_cons.mp hmem with hc | hmem
    · exact hpercent hc
    · rcases List.mem_pair.mp hmem with hc | hc
      · exact hne (hdigits d).1 hc
      · exact hne (hdigits d).2 hc

/-! ### Pairs -/

def encodePair (p : Bytes × Bytes) : Bytes := urlEncode p.1 ++ chr '=' :: urlEncode p.2

def formText (pairs : List (Bytes × Bytes)) : Bytes := [chr '&'].intercalate (pairs.map encodePair)

theorem formPair_encodePair (p : Bytes × Bytes) : formPair (encodePair p) = p := by
  have hname : ∀ c ∈ urlEncode p.1, decide (c ≠ chr '=') = true := fun c hc =>
    decide_eq_true fun heq => notMem_urlEncode (by decide) (by decide) p.1 (heq ▸ hc)
  have hkey : (encodePair p).takeWhile (· ≠ chr '=') = urlEncode p.1 := by
    rw [encodePair, List.takeWhile_append_of_pos hname, List.takeWhile_cons_of_neg (by simp),
      List.append_nil]
  have hvalue : (encodePair p).dropWhile (· ≠ chr '=') = chr '=' :: urlEncode p.2 := by
    rw [encodePair, List.dropWhile_append_of_pos hname, List.dropWhile_cons_of_neg (by simp)]
  rw [formPair, hkey, hvalue, List.tail_cons, urlDecode_urlEncode, urlDecode_urlEncode]

theorem encodePair_ne_nil (p : Bytes × Bytes) : encodePair p ≠ [] := by
  rw [encodePair]
  exact List.append_ne_nil_of_right_ne_nil _ (List.cons_ne_nil _ _)

theorem separator_notMem_encodePair (p : Bytes × Bytes) : chr '&' ∉ encodePair p := by
  rw [encodePair, List.mem_append, List.mem_cons, not_or, not_or]
  exact ⟨notMem_urlEncode (by decide) (by decide) _, by decide,
    notMem_urlEncode (by decide) (by decide) _⟩

/-- The pairs are read in their order. -/
theorem parseForm_formText (pairs : List (Bytes × Bytes)) :
    parseForm (formText pairs) = OrderedMap.empty.insertAll pairs := by
  rcases pairs with _ | ⟨p, pairs⟩
  · rfl
  have hseparator : ∀ l ∈ (p :: pairs).map encodePair, chr '&' ∉ l := by
    intro l hl
    obtain ⟨q, -, rfl⟩ := List.mem_map.mp hl
    exact separator_notMem_encodePair q
  have hkept : ((p :: pairs).map encodePair).filter (· ≠ []) = (p :: pairs).map encodePair := by
    rw [List.filter_eq_self]
    intro l hl
    obtain ⟨q, -, rfl⟩ := List.mem_map.mp hl
    exact decide_eq_true (encodePair_ne_nil q)
  have hread : ((p :: pairs).map encodePair).map formPair = p :: pairs := by
    rw [List.map_map]
    exact List.map_id'' formPair_encodePair (p :: pairs)
  rw [parseForm, formText, List.splitOn_intercalate _ hseparator (by simp), hkept, hread]

/-- What is encoded is decoded as it was, byte strings and forms with their pairs in any order. -/
theorem forms_roundTrip : (∀ s, urlDecode (urlEncode s) = s) ∧
    ∀ (m : StringMap) (pairs : List (Bytes × Bytes)), pairs.Perm m.entries →
      parseForm (formText pairs) = m :=
  ⟨urlDecode_urlEncode, fun m pairs hpairs => by
    rw [parseForm_formText, OrderedMap.insertAll_of_perm hpairs]⟩

theorem forms_roundTrip_plus : parseForm (formText [(str "n", str "a+b & c%"), (str "=", [])]) =
    OrderedMap.empty.insertAll [(str "=", []), (str "n", str "a+b & c%")] :=
  forms_roundTrip.2 _ _ (by decide)

end ExamVan.Auth
