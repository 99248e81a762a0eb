import ExamVan.Api.Body
import ExamVan.Models.Roles
import Mathlib.Data.List.DropRight

/-!
# Roles in a request

`json_roles_join` collects the canonical roles of an array. For a caller who is no superadmin,
`sanitize_roles_json` takes the name out of the text that has been made of them, with the commas
around it.
-/

namespace ExamVan.Admin

open ByteString Models Queue

/-! ### The array of the request -/

/-- Where the loop over the array stands: between two elements, in a string with what has been read
of it, or in something else. -/
inductive RoleScan
  | between
  | quoted (read : Bytes)
  | other

/-- A canonical role that is not there yet. -/
def addRole (name : Bytes) (roles : List Role) : List Role :=
  match Role.ofName? name with
  | none => roles
  | some r => if r ∈ roles then roles else roles ++ [r]

/-- The loop of `json_roles_join`, to the closing bracket or to the end of the text. -/
def collectRoles : RoleScan → List Role → Bytes → List Role
  | .quoted read, roles, [] => addRole read roles
  | _, roles, [] => roles
  | .between, roles, c :: t =>
      if isBlank c ∨ c = chr ',' then collectRoles .between roles t
      else if c = chr ']' then roles
      else if c = chr '"' then collectRoles (.quoted []) roles t
      else collectRoles .other roles t
  | .quoted read, roles, c :: t =>
      if c = chr '\\' then
        match t with
        | [] => addRole (read ++ [c]) roles
        | d :: t => collectRoles (.quoted (read ++ [d])) roles t
      else if c = chr '"' then collectRoles .between (addRole read roles) t
      else collectRoles (.quoted (read ++ [c])) roles t
  | .other, roles, c :: t =>
      if c = chr ']' then roles
      else if c = chr ',' then collectRoles .between roles t
      else collectRoles .other roles t

/-- The canonical roles of the array after the first `"roles"`, if there is one. -/
def rolesIn (body : Bytes) : Option (List Role) :=
  match findSub (needle (str "roles")) body with
  | none => none
  | some t =>
      match findByte (· = chr ':') (t.drop (needle (str "roles")).length) with
      | none => none
      | some u =>
          match u.tail.dropWhile isBlank with
          | [] => none
          | c :: v => if c = chr '[' then some (collectRoles .between [] v) else none

def jsonRolesJoin (body : Bytes) : Bytes := (rolesIn body).elim [] rolesText

/-! ### Taking a role out of the text -/

def bad : Bytes := needle (str "superadmin")

def isSeparator (c : UInt8) : Bool := c = chr ' ' || c = chr ','

/-- The loop of `sanitize_roles_json` from position `p` on. Each round shortens the text, so that
its length is fuel enough. The text comes from `json_roles_join`: no blank stands in it, so a
position after an erasure never lies behind its end. -/
def eraseBad : Nat → Nat → Bytes → Bytes
  | 0, _, out => out
  | fuel + 1, p, out =>
      match findSub bad (out.drop p) with
      | none => out
      | some t =>
          let p := out.length - t.length
          let before := (out.take p).rdropWhile isSeparator
          let rest := t.drop bad.length
          let after := rest.dropWhile isSeparator
          let again := fun out : Bytes =>
            if out = str "[" ∨ out = str "[]" then out else eraseBad fuel before.length out
          if before.getLast? = some (chr '[') then
            if after.head? = some (chr ']') then again (out.take p ++ rest)
            else
              let out := before ++ after
              eraseBad fuel before.length
                (if after.head? = some (chr ',') then before ++ after.tail
                else out.take p ++ out.drop (p + bad.length))
          else again (before ++ after)

/-- While a pair of bytes is found, one of them is erased. -/
def eraseOne (pair : Bytes) (which : Nat) : Nat → Bytes → Bytes
  | 0, s => s
  | fuel + 1, s =>
      match findSub pair s with
      | none => s
      | some t => eraseOne pair which fuel (s.eraseIdx (s.length - t.length + which))

def sanitizeRolesJson (rolesJson : Bytes) (allowSuperadmin : Bool) : Bytes :=
  if allowSuperadmin then rolesJson
  else
    let out := eraseBad rolesJson.length 0 rolesJson
    let compact := out.filter fun c => !isBlank c && c != chr ','
    if compact = str "[]" ∨ compact = str "[" then str "[]"
    else
      let fixed := eraseOne (str ",,") 0 out.length out
      let fixed := eraseOne (str "[,") 1 fixed.length fixed
      eraseOne (str ",]") 0 fixed.length fixed

/-- The text that `create_user` and `edit_user` write: without roles it is the single role. -/
def rolesWritten (allowSuperadmin : Bool) (single : Bytes) (body : Bytes) : Bytes :=
  let rolesJson := sanitizeRolesJson (jsonRolesJoin body) allowSuperadmin
  if rolesJson = str "[]" then arrayText [single] else rolesJson

/-! ### What is granted -/

/-- The roles of the request without superadmin. -/
def requested (body : Bytes) : List Role := ((rolesIn body).getD []).filter (· ≠ .superadmin)

/-- The requested roles, or the single one if none is left. -/
def granted (single body : Bytes) : Option (List Role) :=
  if requested body = [] then (Role.ofName? single).map fun r => [r] else some (requested body)

/-- A written text is the array of what is granted, and nobody becomes superadmin by it. -/
structure SafeRoles (single body text : Bytes) : Prop where
  wellFormed : ∃ t : JsonText.Text, t.render = text
  granted : ∃ roles, granted single body = some roles ∧ text = rolesText roles
  unprivileged : hasRole text (str "superadmin") = false

/-- What the single role may be. -/
def Ordinary (single : Bytes) : Prop := ∃ r : Role, r ≠ .superadmin ∧ r.name = single

/-- Superadmin is not among the roles, or the last of them. -/
def Tidy (roles : List Role) : Prop :=
  .superadmin ∉ roles ∨ roles.getLast? = some .superadmin

/-- When the text that is written grants what it should: the array is there, superadmin stands in
no place where its erasure takes other roles along, and the single role, if it is needed, is an
ordinary one. After superadmin one other role alone is lost, which does no harm if it is the single
one. -/
def RolesKept (allowSuperadmin : Bool) (single body : Bytes) : Prop :=
  ∃ roles, rolesIn body = some roles ∧
    if allowSuperadmin then .superadmin ∉ roles ∧ (roles = [] → Ordinary single)
    else Tidy roles ∧ (requested body = [] → Ordinary single) ∨
      ∃ r, roles = [.superadmin, r] ∧ r.name = single

section

variable {roles : List Role} {allow : Bool} {single body : Bytes}

theorem nodup_addRole (name : Bytes) (h : roles.Nodup) : (addRole name roles).Nodup := by
  unfold addRole
  split
  · exact h
  · split
    · exact h
    next hnew => exact h.append (List.nodup_singleton _) (List.disjoint_singleton.mpr hnew)

theorem nodup_collectRoles (scan : RoleScan) (s : Bytes) (h : roles.Nodup) :
    (collectRoles scan roles s).Nodup := by
  fun_induction collectRoles scan roles s <;> simp_all [nodup_addRole]

theorem nodup_of_rolesIn (h : rolesIn body = some roles) : roles.Nodup := by
  unfold rolesIn at h
  split at h
  · cases h
  split at h
  · cases h
  split at h
  · cases h
  split at h
  · cases h
    exact nodup_collectRoles _ _ List.nodup_nil
  · cases h

/-! ### The text after the erasure -/

/-- A tidy text loses superadmin and nothing else. -/
theorem sanitize_of_tidy (hnodup : roles.Nodup) (htidy : Tidy roles) :
    sanitizeRolesJson (rolesText roles) false = rolesText (roles.filter (· ≠ .superadmin)) := by
  have hall : ∀ roles ∈ Role.lists,
      .superadmin ∉ roles ∨ roles.getLast? = some .superadmin →
        sanitizeRolesJson (rolesText roles) false =
          rolesText (roles.filter (· ≠ .superadmin)) := by
    decide +kernel
  exact hall roles (Role.mem_lists hnodup) htidy

/-- One role after superadmin is lost. -/
theorem sanitize_pair {r : Role} (hr : r ≠ .superadmin) :
    sanitizeRolesJson (rolesText [.superadmin, r]) false = str "[]" := by
  cases r with
  | superadmin => exact absurd rfl hr
  | _ => decide +kernel

/-- Any other text is not what it should be, nor the empty array. -/
theorem sanitize_of_not_tidy (hnodup : roles.Nodup) (htidy : ¬ Tidy roles)
    (hpair : ∀ r, roles ≠ [.superadmin, r]) :
    sanitizeRolesJson (rolesText roles) false ≠ rolesText (roles.filter (· ≠ .superadmin)) ∧
      sanitizeRolesJson (rolesText roles) false ≠ str "[]" := by
  have hall : ∀ roles ∈ Role.lists,
      ¬ (.superadmin ∉ roles ∨ roles.getLast? = some .superadmin) →
        (∀ r ∈ Role.all, roles ≠ [.superadmin, r]) →
          sanitizeRolesJson (rolesText roles) false ≠ rolesText (roles.filter (· ≠ .superadmin)) ∧
            sanitizeRolesJson (rolesText roles) false ≠ str "[]" := by
    decide +kernel
  exact hall roles (Role.mem_lists hnodup) htidy fun r _ => hpair r

example : sanitizeRolesJson (rolesText [.superadmin, .operator, .guru]) false ≠ rolesText [.operator, .guru] := by
  decide +kernel

/-! ### The text that is written -/

theorem rolesText_eq_nil_iff : rolesText roles = str "[]" ↔ roles = [] := by
  constructor
  · intro h
    cases roles with
    | nil => rfl
    | cons r roles =>
        have hlength := congrArg List.length h
        rw [rolesText, arrayText, List.map_cons, intercalate_cons] at hlength
        simp [needle, str] at hlength
  · rintro rfl
    rfl

theorem arrayText_singleton_inj {a b : Bytes} : arrayText [a] = arrayText [b] ↔ a = b := by
  constructor
  · intro h
    simpa [arrayText, needle, List.intercalate_singleton] using h
  · rintro rfl
    rfl

theorem requested_of_rolesIn (h : rolesIn body = some roles) :
    requested body = roles.filter (· ≠ .superadmin) := by
  rw [requested, h, Option.getD_some]

theorem nodup_requested : (requested body).Nodup := by
  unfold requested
  cases h : rolesIn body with
  | none => exact List.nodup_nil
  | some roles => exact (nodup_of_rolesIn h).filter _

theorem superadmin_notMem_requested : Role.superadmin ∉ requested body := by
  intro h
  simpa using (List.mem_filter.mp h).2

/-- With roles left, the written text has to be theirs. -/
theorem safeRoles_iff_of_requested {text : Bytes} (h : requested body ≠ []) :
    SafeRoles single body text ↔ text = rolesText (requested body) := by
  have hgranted : granted single body = some (requested body) := if_neg h
  constructor
  · intro hsafe
    obtain ⟨roles, hroles, htext⟩ := hsafe.granted
    rw [Option.some.inj (hgranted.symm.trans hroles), htext]
  · rintro rfl
    obtain ⟨t, ht, -⟩ := rolesText_json (requested body)
    refine ⟨⟨t, ht⟩, ⟨_, hgranted, rfl⟩, ?_⟩
    have hrole := hasRole_rolesText (@nodup_requested body) .superadmin
    rw [decide_eq_false superadmin_notMem_requested] at hrole
    exact hrole

/-- With no role left, the single one has to be ordinary. -/
theorem safeRoles_single_iff (h : requested body = []) :
    SafeRoles single body (arrayText [single]) ↔ Ordinary single := by
  have hgranted : granted single body = (Role.ofName? single).map fun r => [r] := if_pos h
  have hrole : ∀ r : Role, hasRole (arrayText [r.name]) (str "superadmin") =
      decide (Role.superadmin ∈ [r]) := fun r =>
    hasRole_rolesText (List.nodup_singleton r) .superadmin
  constructor
  · intro hsafe
    obtain ⟨roles, hroles, -⟩ := hsafe.granted
    rw [hgranted] at hroles
    obtain ⟨r, hr, -⟩ := Option.map_eq_some_iff.mp hroles
    have hname := Role.ofName?_eq_some.mp hr
    refine ⟨r, ?_, hname⟩
    rintro rfl
    have hsuper := hsafe.unprivileged
    rw [← hname, hrole] at hsuper
    simp at hsuper
  · rintro ⟨r, hne, rfl⟩
    obtain ⟨t, ht, -⟩ := rolesText_json [r]
    refine ⟨⟨t, ht⟩, ⟨[r], ?_, rfl⟩, ?_⟩
    · rw [hgranted, Role.ofName?_eq_some.mpr rfl, Option.map_some]
    · rw [hrole]
      simpa using hne.symm

theorem rolesWritten_of_text {text : Bytes}
    (htext : sanitizeRolesJson (jsonRolesJoin body) allow = text) :
    rolesWritten allow single body = if text = str "[]" then arrayText [single] else text := by
  rw [rolesWritten, htext]

/-- A text that has kept the requested roles. -/
theorem safeRoles_iff_of_kept
    (hkept : sanitizeRolesJson (jsonRolesJoin body) allow = rolesText (requested body)) :
    SafeRoles single body (rolesWritten allow single body) ↔
      (requested body = [] → Ordinary single) := by
  rw [rolesWritten_of_text hkept]
  by_cases hnone : requested body = []
  · rw [if_pos (rolesText_eq_nil_iff.mpr hnone), safeRoles_single_iff hnone]
    exact ⟨fun h _ => h, fun h => h hnone⟩
  · rw [if_neg fun h => hnone (rolesText_eq_nil_iff.mp h), safeRoles_iff_of_requested hnone]
    exact iff_of_true rfl fun h => absurd h hnone

theorem safeRoles_iff_of_allowed (h : rolesIn body = some roles) :
    SafeRoles single body (rolesWritten true single body) ↔
      .superadmin ∉ roles ∧ (roles = [] → Ordinary single) := by
  have hnodup := nodup_of_rolesIn h
  have htext : sanitizeRolesJson (jsonRolesJoin body) true = rolesText roles := by
    rw [jsonRolesJoin, h]
    rfl
  by_cases hsuper : Role.superadmin ∈ roles
  · refine iff_of_false (fun hsafe => ?_) fun hkept => hkept.1 hsuper
    have hne : roles ≠ [] := List.ne_nil_of_mem hsuper
    have hrole := hsafe.unprivileged
    rw [rolesWritten_of_text htext, if_neg fun heq => hne (rolesText_eq_nil_iff.mp heq)] at hrole
    have hhas := hasRole_rolesText hnodup .superadmin
    rw [decide_eq_true hsuper] at hhas
    exact Bool.noConfusion (hhas.symm.trans hrole)
  · have hsame : requested body = roles := by
      rw [requested_of_rolesIn h, List.filter_eq_self]
      intro r hr
      simpa using fun heq : r = .superadmin => hsuper (heq ▸ hr)
    rw [safeRoles_iff_of_kept (htext.trans (by rw [hsame])), hsame, and_iff_right hsuper]

theorem tidy_of_forall_superadmin (hnodup : roles.Nodup)
    (hall : ∀ r ∈ roles, r = .superadmin) : Tidy roles := by
  cases roles with
  | nil => exact Or.inl List.not_mem_nil
  | cons r rest =>
      obtain rfl := hall r List.mem_cons_self
      cases rest with
      | nil => exact Or.inr rfl
      | cons r' rest =>
          obtain rfl := hall r' (List.mem_cons_of_mem _ List.mem_cons_self)
          simp at hnodup

theorem safeRoles_iff_of_sanitized (h : rolesIn body = some roles) :
    SafeRoles single body (rolesWritten false single body) ↔
      Tidy roles ∧ (requested body = [] → Ordinary single) ∨
        ∃ r, roles = [.superadmin, r] ∧ r.name = single := by
  have hnodup := nodup_of_rolesIn h
  have hrequested := requested_of_rolesIn h
  have htext : jsonRolesJoin body = rolesText roles := by
    rw [jsonRolesJoin, h]
    rfl
  by_cases htidy : Tidy roles
  · have hpair : ¬ ∃ r, roles = [.superadmin, r] ∧ r.name = single := by
      rintro ⟨r, rfl, -⟩
      rcases htidy with hnot | hlast
      · exact hnot List.mem_cons_self
      · obtain rfl : r = .superadmin := by simpa using hlast
        simp at hnodup
    have hkept : sanitizeRolesJson (jsonRolesJoin body) false = rolesText (requested body) := by
      rw [htext, hrequested]
      exact sanitize_of_tidy hnodup htidy
    rw [safeRoles_iff_of_kept hkept, or_iff_left hpair, and_iff_right htidy]
  · have hleft : ¬ (Tidy roles ∧ (requested body = [] → Ordinary single)) := fun h => htidy h.1
    rw [or_iff_right hleft]
    by_cases hpair : ∃ r, roles = [.superadmin, r]
    · obtain ⟨r, rfl⟩ := hpair
      have hr : r ≠ .superadmin := by
        rintro rfl
        simp at hnodup
      have hone : requested body = [r] := by simp [hrequested, hr]
      have hempty : sanitizeRolesJson (jsonRolesJoin body) false = str "[]" := by
        rw [htext]
        exact sanitize_pair hr
      rw [rolesWritten_of_text hempty, if_pos rfl,
        safeRoles_iff_of_requested (by rw [hone]; exact List.cons_ne_nil _ _), hone]
      constructor
      · exact fun heq => ⟨r, rfl, (arrayText_singleton_inj.mp heq).symm⟩
      · rintro ⟨r', hroles, rfl⟩
        obtain rfl : r = r' := by simpa using hroles
        rfl
    · have hne : ∀ r, roles ≠ [.superadmin, r] := fun r hr => hpair ⟨r, hr⟩
      have hfails := sanitize_of_not_tidy hnodup htidy hne
      rw [← htext, ← hrequested] at hfails
      have hnone : requested body ≠ [] := by
        intro hnil
        have hall : ∀ r ∈ roles, r = .superadmin := by
          simpa [hrequested, List.filter_eq_nil_iff] using hnil
        exact htidy (tidy_of_forall_superadmin hnodup hall)
      rw [rolesWritten_of_text rfl, if_neg hfails.2, safeRoles_iff_of_requested hnone]
      refine iff_of_false hfails.1 ?_
      rintro ⟨r, hr, -⟩
      exact hne r hr

/-- What is written is safe exactly if the roles are kept. -/
theorem safeRoles_rolesWritten_iff :
    SafeRoles single body (rolesWritten allow single body) ↔ RolesKept allow single body := by
  unfold RolesKept
  cases h : rolesIn body with
  | none =>
      have hnil : rolesWritten allow single body = [] := by
        have htext : sanitizeRolesJson (jsonRolesJoin body) allow = [] := by
          rw [jsonRolesJoin, h]
          cases allow <;> rfl
        rw [rolesWritten_of_text htext]
        rfl
      refine iff_of_false (fun hsafe => ?_) fun ⟨roles, hroles, _⟩ => by cases hroles
      obtain ⟨roles, -, htext⟩ := hsafe.granted
      rw [hnil] at htext
      exact List.cons_ne_nil _ _ htext.symm
  | some roles =>
      have hsome : ∀ {p : List Role → Prop}, (∃ l, some roles = some l ∧ p l) ↔ p roles :=
        fun {p} => ⟨fun ⟨l, hl, hp⟩ => Option.some.inj hl ▸ hp, fun hp => ⟨roles, rfl, hp⟩⟩
      rw [hsome]
      cases allow with
      | true => exact safeRoles_iff_of_allowed h
      | false => exact safeRoles_iff_of_sanitized h

end

end ExamVan.Admin
