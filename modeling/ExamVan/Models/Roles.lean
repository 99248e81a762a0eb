import ExamVan.Lib.JsonText
import ExamVan.Queue.Job
import Mathlib.Data.List.Permutation
import Mathlib.Data.List.Sublists

/-!
# Roles

The roles of a user are stored as the text of a JSON array. `has_role` looks for the quoted name in
that text.
-/

namespace ExamVan.Models

open ByteString Queue

inductive Role
  | guru
  | pengawas
  | operator
  | superadmin
  deriving DecidableEq

namespace Role

def name : Role → Bytes
  | guru => str "guru"
  | pengawas => str "pengawas"
  | operator => str "operator"
  | superadmin => str "superadmin"

/-- In the order of `parse_roles`. -/
def all : List Role := [guru, pengawas, operator, superadmin]

def ofName? (s : Bytes) : Option Role := all.find? (·.name = s)

theorem ofName?_eq_some {s : Bytes} {r : Role} : ofName? s = some r ↔ r.name = s := by
  constructor
  · intro h
    simpa using List.find?_some h
  · rintro rfl
    cases r <;> rfl

end Role

/-- `has_role`; the last two forms are those of old cookies. -/
def hasRole (roleJson role : Bytes) : Bool :=
  (findSub (needle role) roleJson).isSome || roleJson = chr '[' :: (role ++ [chr ']']) ||
    roleJson = role

/-- `parse_roles`. -/
def parseRoles (roleJson : Bytes) : List Role :=
  Role.all.filter fun r => hasRole roleJson r.name

/-- An array of quoted texts. -/
def arrayText (names : List Bytes) : Bytes :=
  chr '[' :: ([chr ','].intercalate (names.map needle) ++ [chr ']'])

/-- The roles as they are stored. -/
def rolesText (roles : List Role) : Bytes := arrayText (roles.map Role.name)

/-- `normalize_role`. -/
def normalizeRole (r : Bytes) : Bytes :=
  match parseRoles r with
  | [] => rolesText [.guru]
  | roles => rolesText roles

/-! ### What a text of roles denotes -/

section

open JsonText

/-- The characters of a text in which nothing has to be escaped. -/
def plainPieces (s : Bytes) : List Piece :=
  s.filterMap fun c =>
    if h : 0x20 ≤ c ∧ c ≠ chr '"' ∧ c ≠ chr '\\' then some (.plain c h) else none

theorem stringText_name (r : Role) :
    stringText (plainPieces r.name) = needle r.name ∧ decode (plainPieces r.name) = r.name := by
  cases r <;> decide +kernel

def roleItems : List Role → Items
  | [] => .nil
  | r :: roles => .cons .empty (.string (plainPieces r.name)) .empty (roleItems roles)

theorem render_roleItems_false (roles : List Role) :
    (roleItems roles).render false =
      (roles.map Role.name).flatMap fun name => chr ',' :: needle name := by
  induction roles with
  | nil => rfl
  | cons r roles ih =>
      simp only [roleItems, Items.render, Value.render, (stringText_name r).1, ih, comma,
        Blanks.text_empty, List.append_nil, List.map_cons, List.flatMap_cons]
      rfl

/-- Joined with commas, every text but the first comes after one. -/
theorem intercalate_cons (a : Bytes) (l : List Bytes) :
    [chr ','].intercalate ((a :: l).map needle) =
      needle a ++ l.flatMap fun b => chr ',' :: needle b := by
  induction l generalizing a with
  | nil => simp [List.intercalate]
  | cons b l ih =>
      rw [List.flatMap_cons, List.map_cons, List.intercalate_cons_of_ne_nil (by simp), ih b]
      simp

theorem render_roleItems (roles : List Role) :
    (roleItems roles).render true = [chr ','].intercalate ((roles.map Role.name).map needle) := by
  cases roles with
  | nil => rfl
  | cons r roles =>
      rw [List.map_cons, intercalate_cons, ← render_roleItems_false]
      simp only [roleItems, Items.render, Value.render, (stringText_name r).1, comma,
        Blanks.text_empty, List.append_nil]
      rfl

theorem data_roleItems (roles : List Role) :
    (roleItems roles).data = roles.map fun r => .string r.name := by
  induction roles with
  | nil => rfl
  | cons r roles ih =>
      rw [roleItems, Items.data, ih, Value.data, (stringText_name r).2, List.map_cons]

/-- The stored text is the JSON array of the names. -/
theorem rolesText_json (roles : List Role) :
    ∃ t : JsonText.Text, t.render = rolesText roles ∧
      t.data = .array (roles.map fun r => .string r.name) := by
  refine ⟨⟨.empty, .array .empty (roleItems roles), .empty⟩, ?_, ?_⟩
  · rw [Text.render, Value.render, render_roleItems]
    simp [rolesText, arrayText]
  · rw [Text.data, Value.data, data_roleItems]

end

/-! ### Lists of distinct roles -/

/-- The 65 lists of distinct roles. -/
def Role.lists : List (List Role) := Role.all.sublists'.flatMap List.permutations'

theorem Role.mem_lists {roles : List Role} (h : roles.Nodup) : roles ∈ Role.lists := by
  have hall : ∀ r : Role, r ∈ Role.all := fun r => by cases r <;> decide
  have hperm : roles.Perm (Role.all.filter (· ∈ roles)) := by
    refine (List.perm_ext_iff_of_nodup h (List.Nodup.filter _ (by decide))).mpr fun r => ?_
    rw [List.mem_filter, decide_eq_true_eq, and_iff_right (hall r)]
  exact List.mem_flatMap.mpr
    ⟨_, List.mem_sublists'.mpr List.filter_sublist, List.mem_permutations'.mpr hperm⟩

theorem hasRole_rolesText {roles : List Role} (h : roles.Nodup) (r : Role) :
    hasRole (rolesText roles) r.name = decide (r ∈ roles) := by
  have hall : ∀ roles ∈ Role.lists, ∀ r ∈ Role.all,
      hasRole (rolesText roles) r.name = decide (r ∈ roles) := by
    decide +kernel
  exact hall roles (Role.mem_lists h) r (by cases r <;> decide)

/-- What is stored is read back, in the order of `parse_roles`. -/
theorem parseRoles_rolesText {roles : List Role} (h : roles.Nodup) :
    parseRoles (rolesText roles) = Role.all.filter (· ∈ roles) := by
  unfold parseRoles
  refine List.filter_congr fun r _ => ?_
  exact hasRole_rolesText h r

end ExamVan.Models
