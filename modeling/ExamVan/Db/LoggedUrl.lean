import ExamVan.Db.ConnectionUrl

/-!
# The database URL in the log

`sanitized_url` masks what is between the first colon behind the scheme and the first at sign. That is
the password of the user information, and nothing else is hidden.
-/

namespace ExamVan.Db

open ByteString Conninfo

/-- `DbPool::sanitized_url`. -/
def sanitizedUrl (u : Bytes) : Bytes :=
  match splitProto u with
  | none => u
  | some (scheme, rest) =>
      let sign := u.idxOf (chr '@')
      let colon := scheme.length + 3 + rest.idxOf (chr ':')
      if chr '@' ∈ u ∧ chr ':' ∈ rest ∧ colon < sign then
        u.take (colon + 1) ++ str "***" ++ u.drop sign
      else u

/-! ### Passwords in a URL -/

/-- A scheme and a user, in front of a password. -/
structure Userinfo where
  scheme : Bytes
  user : Bytes
  isScheme : isScheme scheme = true
  noColon : chr ':' ∉ user
  noAt : chr '@' ∉ user

def Userinfo.text (i : Userinfo) (password after : Bytes) : Bytes :=
  i.scheme ++ (str "://" ++ (i.user ++ chr ':' :: (password ++ chr '@' :: after)))

/-- They differ only in the password of the user information. -/
def DifferInUserinfo (u₁ u₂ : Bytes) : Prop :=
  ∃ (i : Userinfo) (password₁ password₂ after : Bytes), chr '@' ∉ password₁ ∧ chr '@' ∉ password₂ ∧
    u₁ = i.text password₁ after ∧ u₂ = i.text password₂ after

/-- A query whose parameters are `earlier`, `password` and `later`. -/
def withParameter (front : Bytes) (earlier later : List Bytes) (value : Bytes) : Bytes :=
  front ++ chr '?' :: [chr '&'].intercalate (earlier ++ (str "password=" ++ value) :: later)

/-- They differ only in the value of a parameter `password`. -/
def DifferInParameter (u₁ u₂ : Bytes) : Prop :=
  ∃ (front : Bytes) (earlier later : List Bytes) (value₁ value₂ : Bytes), chr '?' ∉ front ∧
    (∀ pair ∈ earlier ++ later, chr '&' ∉ pair) ∧ chr '&' ∉ value₁ ∧ chr '&' ∉ value₂ ∧
    u₁ = withParameter front earlier later value₁ ∧ u₂ = withParameter front earlier later value₂

/-- Accepted URLs that differ only in a password. -/
def DifferInPassword (u₁ u₂ : Bytes) : Prop :=
  pgConninfoFromUrl u₁ ≠ [] ∧ pgConninfoFromUrl u₂ ≠ [] ∧
    (DifferInUserinfo u₁ u₂ ∨ DifferInParameter u₁ u₂)

variable {u u₁ u₂ rest scheme password after : Bytes}

theorem eq_of_splitProto (h : splitProto u = some (scheme, rest)) : u = scheme ++ (str "://" ++ rest) := by
  obtain ⟨t, hfound, hpair⟩ := Option.map_eq_some_iff.mp h
  obtain ⟨rfl, rfl⟩ := Prod.mk.inj hpair
  obtain ⟨skip, rfl, more, rfl⟩ := exists_of_findSub hfound
  have hdrop : (str "://" ++ more).drop 3 = more := List.drop_left' rfl
  rw [List.length_append, Nat.add_sub_cancel, List.take_left, hdrop]

theorem exists_of_accepted (h : pgConninfoFromUrl u ≠ []) :
    ∃ scheme rest, splitProto u = some (scheme, rest) ∧ isScheme scheme = true := by
  rw [pgConninfoFromUrl] at h
  split at h
  · exact absurd rfl h
  · next scheme rest hproto =>
    refine ⟨scheme, rest, hproto, ?_⟩
    by_contra hno
    rw [if_pos (by simpa using hno)] at h
    exact h rfl

theorem notMem_scheme (h : isScheme scheme = true) : chr ':' ∉ scheme ∧ chr '@' ∉ scheme := by
  rw [isScheme, Bool.or_eq_true, decide_eq_true_eq, decide_eq_true_eq] at h
  rcases h with rfl | rfl <;> decide

/-- What the parser takes for the user and the password. -/
theorem splitUser_text (i : Userinfo) (hpassword : chr '@' ∉ password) (after : Bytes) :
    ∃ rest, splitProto (i.text password after) = some (i.scheme, rest) ∧
      splitUser (splitUserinfo rest).1 = (i.user, password) := by
  have huserinfo : chr '@' ∉ i.user ++ chr ':' :: password := by
    rw [List.mem_append, List.mem_cons, not_or, not_or]
    exact ⟨i.noAt, by decide, hpassword⟩
  refine ⟨_, splitProto_append (notMem_scheme i.isScheme).1 _, ?_⟩
  rw [← List.cons_append, ← List.append_assoc, splitUserinfo_append huserinfo]
  exact splitUser_append i.noColon password

/-- The value is the one that the parser reads. -/
theorem mem_rawParameters {front value : Bytes} {earlier later : List Bytes} (hfront : chr '?' ∉ front)
    (hpairs : ∀ pair ∈ earlier ++ later, chr '&' ∉ pair) (hvalue : chr '&' ∉ value) :
    (str "password", value) ∈ rawParameters (withParameter front earlier later value) := by
  have hseparator : ∀ pair ∈ earlier ++ (str "password=" ++ value) :: later, chr '&' ∉ pair := by
    intro pair hpair
    rw [List.mem_append, List.mem_cons] at hpair
    rcases hpair with hearlier | rfl | hlater
    · exact hpairs pair (List.mem_append_left _ hearlier)
    · rw [List.mem_append, not_or]
      exact ⟨by decide, hvalue⟩
    · exact hpairs pair (List.mem_append_right _ hlater)
  rw [rawParameters, withParameter, (takeWhile_ne_append hfront _).2, List.tail_cons,
    List.splitOn_intercalate _ hseparator (by simp)]
  refine List.mem_filterMap.mpr ⟨str "password=" ++ value, by simp, ?_⟩
  obtain ⟨htake, hdrop⟩ := takeWhile_ne_append (c := chr '=') (s := str "password") (by decide) value
  have htext : str "password=" ++ value = str "password" ++ chr '=' :: value := rfl
  rw [rawParameter, htext, htake, hdrop, if_pos ⟨by simp, by decide⟩, List.tail_cons]

/-! ### What is masked -/

theorem sanitizedUrl_text (i : Userinfo) (hpassword : chr '@' ∉ password) (after : Bytes) :
    sanitizedUrl (i.text password after) = i.text (str "***") after := by
  obtain ⟨hcolon, hsign⟩ := notMem_scheme i.isScheme
  have hproto := splitProto_append hcolon (i.user ++ chr ':' :: (password ++ chr '@' :: after))
  have hfirst : ((i.user ++ chr ':' :: (password ++ chr '@' :: after)).idxOf (chr ':')) = i.user.length := by
    rw [List.idxOf_append_of_notMem i.noColon, List.idxOf_cons_self, Nat.add_zero]
  have hfront : chr '@' ∉ i.scheme ++ (str "://" ++ (i.user ++ chr ':' :: password)) := by
    simp only [List.mem_append, List.mem_cons, not_or]
    exact ⟨hsign, by decide, i.noAt, by decide, hpassword⟩
  have htext : i.text password after =
      (i.scheme ++ (str "://" ++ (i.user ++ chr ':' :: password))) ++ chr '@' :: after := by
    simp only [Userinfo.text, List.append_assoc, List.cons_append]
  have hat : (i.text password after).idxOf (chr '@') =
      (i.scheme ++ (str "://" ++ (i.user ++ chr ':' :: password))).length := by
    rw [htext, List.idxOf_append_of_notMem hfront, List.idxOf_cons_self, Nat.add_zero]
  have hcut : i.text password after =
      (i.scheme ++ (str "://" ++ (i.user ++ [chr ':']))) ++ (password ++ chr '@' :: after) := by
    simp only [Userinfo.text, List.append_assoc, List.cons_append, List.nil_append]
  have htake : (i.text password after).take (i.scheme.length + 3 + i.user.length + 1) =
      i.scheme ++ (str "://" ++ (i.user ++ [chr ':'])) := by
    rw [hcut]
    refine List.take_left' ?_
    simp only [List.length_append, List.length_singleton, show (str "://").length = 3 from rfl]
    omega
  have hmasked : chr '@' ∈ i.text password after ∧
      chr ':' ∈ i.user ++ chr ':' :: (password ++ chr '@' :: after) ∧
      i.scheme.length + 3 + i.user.length < (i.text password after).idxOf (chr '@') := by
    refine ⟨by simp [htext], by simp, ?_⟩
    rw [hat]
    simp only [List.length_append, List.length_cons, show (str "://").length = 3 from rfl]
    omega
  simp only [sanitizedUrl, show splitProto (i.text password after) = _ from hproto, hfirst]
  rw [if_pos hmasked, htake, hat, htext, List.drop_left]
  simp only [Userinfo.text, List.append_assoc, List.cons_append, List.nil_append]

/-- A URL without a password is shown as it is. -/
theorem text_or_sanitizedUrl_eq (h : pgConninfoFromUrl u ≠ []) :
    (∃ (i : Userinfo) (password after : Bytes), chr '@' ∉ password ∧ u = i.text password after) ∨
      sanitizedUrl u = u := by
  obtain ⟨scheme, rest, hproto, hscheme⟩ := exists_of_accepted h
  have hu := eq_of_splitProto hproto
  have hsign : u.idxOf (chr '@') = scheme.length + 3 + rest.idxOf (chr '@') := by
    have hfront : chr '@' ∉ scheme ++ str "://" := by
      rw [List.mem_append, not_or]
      exact ⟨(notMem_scheme hscheme).2, by decide⟩
    rw [hu, ← List.append_assoc, List.idxOf_append_of_notMem hfront, List.length_append]
    rfl
  by_cases hmasked : chr '@' ∈ u ∧ chr ':' ∈ rest ∧
      scheme.length + 3 + rest.idxOf (chr ':') < u.idxOf (chr '@')
  · left
    obtain ⟨hat, hcolon, hlt⟩ := hmasked
    have hrest : chr '@' ∈ rest := by
      rw [hu, List.mem_append, List.mem_append] at hat
      exact (hat.resolve_left (notMem_scheme hscheme).2).resolve_left (by decide)
    obtain ⟨user, more, rfl, huser⟩ := List.eq_append_cons_of_mem hcolon
    rw [hsign, List.idxOf_append_of_notMem huser, List.idxOf_cons_self] at hlt
    have hnoAt : chr '@' ∉ user := by
      intro hmem
      have hbound := List.idxOf_lt_length_of_mem hmem
      rw [List.idxOf_append_of_mem hmem] at hlt
      omega
    rw [List.mem_append, List.mem_cons] at hrest
    have hmore : chr '@' ∈ more := (hrest.resolve_left hnoAt).resolve_left (by decide)
    obtain ⟨password, after, rfl, hpassword⟩ := List.eq_append_cons_of_mem hmore
    exact ⟨⟨scheme, user, hscheme, huser, hnoAt⟩, password, after, hpassword, hu⟩
  · right
    simp only [sanitizedUrl, hproto]
    rw [if_neg hmasked]

/-- Where the sign and the colon stand, all but the password can be read back. -/
theorem text_inj {i j : Userinfo} {after' : Bytes} (h : i.text (str "***") after = j.text (str "***") after') :
    i.scheme = j.scheme ∧ i.user = j.user ∧ after = after' := by
  have hproto := congrArg splitProto h
  simp only [Userinfo.text] at hproto
  rw [splitProto_append (notMem_scheme i.isScheme).1, splitProto_append (notMem_scheme j.isScheme).1,
    Option.some.injEq, Prod.mk.injEq] at hproto
  have huser := congrArg splitUser hproto.2
  rw [splitUser_append i.noColon, splitUser_append j.noColon, Prod.mk.injEq] at huser
  exact ⟨hproto.1, huser.1, (List.cons.inj (List.append_cancel_left huser.2)).2⟩

/-- The log hides the password of the user information and no other: of two URLs that differ only in a
password the log shows the same just if it is that one. -/
theorem sanitizedUrl_eq_iff (h : DifferInPassword u₁ u₂) :
    sanitizedUrl u₁ = sanitizedUrl u₂ ↔ u₁ = u₂ ∨ DifferInUserinfo u₁ u₂ := by
  obtain ⟨haccepted₁, haccepted₂, -⟩ := h
  constructor
  · intro heq
    rcases text_or_sanitizedUrl_eq haccepted₁ with ⟨i, password₁, after₁, hpassword₁, rfl⟩ | hshown₁ <;>
      rcases text_or_sanitizedUrl_eq haccepted₂ with ⟨j, password₂, after₂, hpassword₂, rfl⟩ | hshown₂
    · right
      rw [sanitizedUrl_text i hpassword₁, sanitizedUrl_text j hpassword₂] at heq
      obtain ⟨hscheme, huser, rfl⟩ := text_inj heq
      refine ⟨i, password₁, password₂, after₁, hpassword₁, hpassword₂, rfl, ?_⟩
      rw [Userinfo.text, Userinfo.text, hscheme, huser]
    · right
      rw [sanitizedUrl_text i hpassword₁, hshown₂] at heq
      exact ⟨i, password₁, str "***", after₁, hpassword₁, by decide, rfl, heq.symm⟩
    · right
      rw [hshown₁, sanitizedUrl_text j hpassword₂] at heq
      exact ⟨j, str "***", password₂, after₂, by decide, hpassword₂, heq, rfl⟩
    · left
      rw [← hshown₁, heq, hshown₂]
  · rintro (rfl | ⟨i, password₁, password₂, after, hpassword₁, hpassword₂, rfl, rfl⟩)
    · rfl
    · rw [sanitizedUrl_text i hpassword₁, sanitizedUrl_text i hpassword₂]

theorem sanitizedUrl_eq_iff_guru :
    sanitizedUrl (str "postgresql://guru:a:b?c@db/examvan") =
        sanitizedUrl (str "postgresql://guru:rahasia@db/examvan") ↔
      str "postgresql://guru:a:b?c@db/examvan" = str "postgresql://guru:rahasia@db/examvan" ∨
        DifferInUserinfo (str "postgresql://guru:a:b?c@db/examvan")
          (str "postgresql://guru:rahasia@db/examvan") :=
  sanitizedUrl_eq_iff ⟨by decide +kernel, by decide +kernel, Or.inl
    ⟨⟨str "postgresql", str "guru", rfl, by decide, by decide⟩, str "a:b?c", str "rahasia",
      str "db/examvan", by decide, by decide, rfl, rfl⟩⟩

/-- A password among the parameters is in the log. -/
theorem sanitizedUrl_shows_parameter :
    ¬ ∀ u₁ u₂, DifferInPassword u₁ u₂ → sanitizedUrl u₁ = sanitizedUrl u₂ := by
  intro hsame
  have heq := hsame (str "postgresql://db/examvan?password=rahasia")
    (str "postgresql://db/examvan?password=lain") ⟨by decide +kernel, by decide +kernel, Or.inr
      ⟨str "postgresql://db/examvan", [], [], str "rahasia", str "lain", by decide, by decide, by decide,
        by decide, rfl, rfl⟩⟩
  exact absurd heq (by decide +kernel)

end ExamVan.Db
