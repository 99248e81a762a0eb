import ExamVan.Admin.SettingValues
import ExamVan.Models.Roles
import ExamVan.Queue.Job

/-!
# Settings that are read back

A request that goes through writes the settings that its body names and the page gives them back, if
the scans of the body agree with the JSON text and each value is of the kind that the page shows.
The rows are written one by one, so a request that is refused midway has written the first ones.
-/

namespace ExamVan.Admin.Settings

open ByteString Http Queue
open JsonText (Blanks Data Members Text Value)

/-! ### What a request asks for -/

/-- The text of a JSON object. -/
structure SettingsBody where
  before : Blanks := .empty
  lead : Blanks := .empty
  members : Members
  after : Blanks := .empty

namespace SettingsBody

def text (b : SettingsBody) : Text := ⟨b.before, .object b.lead b.members, b.after⟩

def bytes (b : SettingsBody) : Bytes := b.text.render

/-- The members of the object, decoded. -/
def asked (b : SettingsBody) : List (Bytes × Data) := b.members.data

end SettingsBody

/-- A value as it is stored: a decoded string, or the text of a number or a word. -/
def valueText : Data → Option Bytes
  | .literal t => some t
  | .string s => some s
  | .array _ => none
  | .object _ => none

/-- The mask that the page shows for a secret. -/
def IsMask (key : Bytes) (d : Data) : Prop := isSecret key = true ∧ d = .string (str "****")

/-- The page gives the value for the key, unless it masks it. -/
def Gives (table : StringMap) (key : Bytes) (d : Data) : Prop :=
  ∀ shown, (key, shown) ∈ reported → shown ≠ .masked →
    ∃ v : Value, v.render = shown.json table key ∧ v.data = d

/-- One setting is written as asked, and given back. -/
def Kept (b : SettingsBody) (writes : List Write) (table : StringMap) (key : Bytes) : Prop :=
  ((∀ d, (key, d) ∉ b.asked) ∧ ∀ t, (key, t) ∉ writes) ∨
    ∃ d, (key, d) ∈ b.asked ∧
      (IsMask key d ∧ (∀ t, (key, t) ∉ writes) ∨
        ¬ IsMask key d ∧ ∃ t, valueText d = some t ∧ (key, t) ∈ writes ∧
          Gives (table.insertAll writes) key d)

def SettingsEnv.Reachable (env : SettingsEnv) : Prop :=
  env.pgConfigured = true ∧ ∀ key ∈ kSettingKeys, upsertSetting (env.upserts key) = true

structure SettingsFaithful (env : SettingsEnv) (table : StringMap) (b : SettingsBody) : Prop where
  kept : env.Reachable → ∀ key ∈ kSettingKeys, Kept b (updateSettings env b.bytes).2 table key
  others : ∀ w ∈ (updateSettings env b.bytes).2, w.1 ∈ kSettingKeys
  refused : (updateSettings env b.bytes).1.status = 503 → ∀ m ∈ b.asked,
    (table.insertAll (updateSettings env b.bytes).2).find? m.1 = table.find? m.1

/-! ### Where the scans of the body lead -/

/-- A member at some depth is spelled as the key, and this value stands for it. The two secrets are
left alone if the value has an asterisk. -/
structure Pending (b : SettingsBody) (key t : Bytes) : Prop where
  spelled : Among key b.text.v.names
  stands : Stands b.bytes key t
  unmasked : ¬ (isSecret key = true ∧ chr '*' ∈ t)

/-- A value that the page shows as what it is. -/
def Shown.Fits : Shown → Data → Prop
  | .text _, d => ∃ s, d = .string s
  | .raw _, d => ∃ t, d = .literal t
  | .isOne _, d => d = .literal (str "false")
  | .isNotZero _, d => d = .literal (str "true")
  | .masked, _ => True
  | .fixed _, _ => True

/-- The scans lead to the value that is asked for, and it is of the kind that the page shows. -/
def Settable (b : SettingsBody) (key : Bytes) : Prop :=
  ((∀ d, (key, d) ∉ b.asked) ∧ ∀ t, ¬ Pending b key t) ∨
    ∃ d, (key, d) ∈ b.asked ∧
      (IsMask key d ∧ (∀ t, ¬ Pending b key t) ∨
        ¬ IsMask key d ∧ ∃ t, valueText d = some t ∧ Pending b key t ∧
          ∀ shown, (key, shown) ∈ reported → shown.Fits d)

/-- A setting whose statement fails is the first of the body's settings, or those before it have
their value already. -/
def NothingHalfDone (env : SettingsEnv) (table : StringMap) (b : SettingsBody) : Prop :=
  ∀ done key rest t, kSettingKeys = done ++ key :: rest → Pending b key t →
    upsertSetting (env.upserts key) = false →
    (∀ k ∈ done, ∀ t, Pending b k t → upsertSetting (env.upserts k) = true) →
    ∀ k ∈ done, ∀ t, Pending b k t → k ∈ b.asked.map Prod.fst → table.find? k = some t

/-! ### The rows that are written -/

theorem plain_kSettingKeys : ∀ key ∈ kSettingKeys, Utils.Plain key := by decide +kernel

theorem nodup_kSettingKeys : kSettingKeys.Nodup := by decide +kernel

section

variable {b : SettingsBody} {env : SettingsEnv} {table : StringMap} {key t : Bytes}

theorem pendingWrite_eq_some_iff (hkey : key ∈ kSettingKeys) {w : Write} :
    pendingWrite b.bytes key = some w ↔ w.1 = key ∧ Pending b key w.2 := by
  have hnamed := jsonHasKey_render (plain_kSettingKeys key hkey) b.text
  change jsonHasKey b.bytes key = _ at hnamed
  obtain ⟨k, t⟩ := w
  unfold pendingWrite
  by_cases hspelled : Among key b.text.v.names
  · have hhas : jsonHasKey b.bytes key = true := by rw [hnamed, decide_eq_true hspelled]
    have hval : ∀ t, rawVal b.bytes key = t ↔ Stands b.bytes key t := fun t => rawVal_eq_iff hhas
    rw [hhas]
    by_cases hmask : isSecret key = true ∧ chr '*' ∈ rawVal b.bytes key
    · have hcontains : (isSecret key && (rawVal b.bytes key).contains (chr '*')) = true := by
        simpa using hmask
      rw [hcontains]
      refine ⟨by simp, fun ⟨_, hpending⟩ => absurd ?_ hpending.unmasked⟩
      rwa [← (hval t).mpr hpending.stands]
    · have hcontains : (isSecret key && (rawVal b.bytes key).contains (chr '*')) = false := by
        simpa using hmask
      rw [hcontains]
      constructor
      · intro h
        obtain ⟨rfl, rfl⟩ : key = k ∧ rawVal b.bytes key = t := by simpa using h
        exact ⟨rfl, hspelled, (hval _).mp rfl, hmask⟩
      · rintro ⟨rfl, hpending⟩
        simp [(hval t).mpr hpending.stands]
  · rw [hnamed, decide_eq_false hspelled]
    exact ⟨by simp, fun ⟨_, hpending⟩ => absurd hpending.spelled hspelled⟩

theorem mem_pendingWrites : (key, t) ∈ pendingWrites b.bytes ↔
    key ∈ kSettingKeys ∧ Pending b key t := by
  unfold pendingWrites
  rw [List.mem_filterMap]
  constructor
  · rintro ⟨k, hk, hw⟩
    obtain ⟨rfl, hpending⟩ := (pendingWrite_eq_some_iff hk).mp hw
    exact ⟨hk, hpending⟩
  · rintro ⟨hk, hpending⟩
    exact ⟨key, hk, (pendingWrite_eq_some_iff hk).mpr ⟨rfl, hpending⟩⟩

theorem fst_of_pendingWrite {body : Bytes} {w : Write} (h : pendingWrite body key = some w) :
    w.1 = key := by
  unfold pendingWrite at h
  split_ifs at h
  cases h
  rfl

theorem pairwise_pendingWrites (body : Bytes) :
    (pendingWrites body).Pairwise fun a b => a.1 ≠ b.1 := by
  refine List.Pairwise.filterMap (pendingWrite body) ?_ nodup_kSettingKeys
  intro k k' hne w hw w' hw'
  rw [← fst_of_pendingWrite hw, ← fst_of_pendingWrite hw'] at hne
  exact hne

/-- The statements go through up to the first that fails. -/
theorem upsertAll_configured (hpg : env.pgConfigured = true) (ws : List Write) :
    upsertAll env ws = (ws.all fun w => upsertSetting (env.upserts w.1),
      ws.takeWhile fun w => upsertSetting (env.upserts w.1)) := by
  induction ws with
  | nil => rfl
  | cons w ws ih =>
      rw [upsertAll, ih]
      cases hok : upsertSetting (env.upserts w.1) <;> simp [hpg, hok]

theorem upsertAll_unconfigured (hpg : env.pgConfigured = false) (ws : List Write) :
    upsertAll env ws = (true, []) := by
  induction ws with
  | nil => rfl
  | cons w ws ih =>
      rw [upsertAll, ih]
      simp [hpg]

theorem updateSettings_writes (env : SettingsEnv) (body : Bytes) :
    (updateSettings env body).2 = (upsertAll env (pendingWrites body)).2 := by
  unfold updateSettings
  split
  next h =>
    rw [h]
    rfl
  next =>
    dsimp only
    split <;> rfl

theorem updateSettings_status (env : SettingsEnv) (body : Bytes) :
    (updateSettings env body).1.status = 503 ↔
      (upsertAll env (pendingWrites body)).1 = false := by
  unfold updateSettings
  split
  next h => simp [h, upsertAll, Http.failure]
  next =>
    dsimp only
    split
    next h => simp [h, savedResponse]
    next h => simp [h, Http.failure]

theorem writes_reachable (h : env.Reachable) (body : Bytes) :
    (updateSettings env body).2 = pendingWrites body := by
  rw [updateSettings_writes, upsertAll_configured h.1]
  refine List.takeWhile_eq_self_iff.mpr fun w hw => h.2 w.1 ?_
  obtain ⟨key, hkey, hwrite⟩ := List.mem_filterMap.mp hw
  rwa [fst_of_pendingWrite hwrite]

theorem writes_subset (env : SettingsEnv) (body : Bytes) {w : Write}
    (h : w ∈ (updateSettings env body).2) : w ∈ pendingWrites body := by
  rw [updateSettings_writes] at h
  cases hpg : env.pgConfigured with
  | false => rw [upsertAll_unconfigured hpg] at h; cases h
  | true =>
      rw [upsertAll_configured hpg] at h
      exact (List.takeWhile_sublist _).mem h

/-! ### A request that is refused -/

theorem find?_insertAll_of_mem {writes : List Write} (h : writes.Pairwise fun a b => a.1 ≠ b.1)
    (hmem : (key, t) ∈ writes) : (table.insertAll writes).find? key = some t := by
  have hkeys : (writes.map Prod.fst).Nodup := List.pairwise_map.mpr h
  rw [OrderedMap.find?_insertAll h]
  generalize hfind : List.find? _ writes = found
  rcases found with _ | w
  · exact absurd (List.find?_eq_none.mp hfind _ hmem) (by simp)
  · have hw : w.1 = key := by simpa using List.find?_some hfind
    obtain rfl := List.inj_on_of_nodup_map hkeys (List.mem_of_find?_eq_some hfind) hmem hw
    rfl

theorem find?_insertAll_of_notMem {writes : List Write}
    (h : writes.Pairwise fun a b => a.1 ≠ b.1) (hnone : ∀ t, (key, t) ∉ writes) :
    (table.insertAll writes).find? key = table.find? key := by
  rw [OrderedMap.find?_insertAll h]
  generalize hfind : List.find? _ writes = found
  rcases found with _ | ⟨k, t⟩
  · rfl
  · obtain rfl : k = key := by simpa using List.find?_some hfind
    exact absurd (List.mem_of_find?_eq_some hfind) (hnone t)

/-- Rows under different keys leave a key as it is if they do not write another value to it. -/
theorem find?_insertAll_eq_self_iff {writes : List Write}
    (h : writes.Pairwise fun a b => a.1 ≠ b.1) :
    (table.insertAll writes).find? key = table.find? key ↔
      ∀ t, (key, t) ∈ writes → table.find? key = some t := by
  constructor
  · intro heq t ht
    rw [← heq, find?_insertAll_of_mem h ht]
  · intro hsame
    by_cases hsome : ∃ t, (key, t) ∈ writes
    · obtain ⟨t, ht⟩ := hsome
      rw [find?_insertAll_of_mem h ht, hsame t ht]
    · exact find?_insertAll_of_notMem h (not_exists.mp hsome)

theorem pairwise_written (hpg : env.pgConfigured = true) (body : Bytes) :
    (upsertAll env (pendingWrites body)).2.Pairwise fun a b => a.1 ≠ b.1 := by
  rw [upsertAll_configured hpg]
  exact (pairwise_pendingWrites body).sublist (List.takeWhile_sublist _)

theorem exists_first_false {α : Type*} {p : α → Bool} {l : List α} (h : l.all p = false) :
    ∃ before a after, l = before ++ a :: after ∧ (∀ x ∈ before, p x = true) ∧ p a = false := by
  induction l with
  | nil => cases h
  | cons a l ih =>
      cases ha : p a with
      | false => exact ⟨[], a, l, rfl, nofun, ha⟩
      | true =>
          obtain ⟨before, x, after, rfl, hbefore, hx⟩ := ih (by simpa [ha] using h)
          exact ⟨a :: before, x, after, rfl, List.forall_mem_cons.mpr ⟨ha, hbefore⟩, hx⟩

/-- The rows that a refused request has written are those before the first failing statement. -/
theorem mem_written_iff (hpg : env.pgConfigured = true) :
    ((upsertAll env (pendingWrites b.bytes)).1 = false ∧
        (key, t) ∈ (upsertAll env (pendingWrites b.bytes)).2) ↔
      ∃ done failing rest u, kSettingKeys = done ++ failing :: rest ∧ Pending b failing u ∧
        upsertSetting (env.upserts failing) = false ∧
        (∀ k ∈ done, ∀ t, Pending b k t → upsertSetting (env.upserts k) = true) ∧
        key ∈ done ∧ Pending b key t := by
  rw [upsertAll_configured hpg]
  let ok : Write → Bool := fun w => upsertSetting (env.upserts w.1)
  change ((pendingWrites b.bytes).all ok = false ∧
    (key, t) ∈ (pendingWrites b.bytes).takeWhile ok) ↔ _
  constructor
  · rintro ⟨hall, hmem⟩
    obtain ⟨before, w, after, hsplit, hbefore, hw⟩ := exists_first_false hall
    have htake : (pendingWrites b.bytes).takeWhile ok = before := by
      rw [hsplit, List.takeWhile_append_of_pos hbefore, List.takeWhile_cons_of_neg (by simp [hw]),
        List.append_nil]
    rw [htake] at hmem
    obtain ⟨l, l', hkeys, hl, hl'⟩ := List.filterMap_eq_append_iff.mp hsplit
    obtain ⟨skipped, failing, rest, rfl, hskipped, hfailing, -⟩ := List.filterMap_eq_cons_iff.mp hl'
    have hfailingKey : failing ∈ kSettingKeys := by simp [hkeys]
    obtain ⟨rfl, hpending⟩ := (pendingWrite_eq_some_iff hfailingKey).mp hfailing
    have hdone : ∀ k ∈ l ++ skipped, ∀ t, Pending b k t → (k, t) ∈ before := by
      intro k hk t ht
      have hkey : k ∈ kSettingKeys := by
        rw [hkeys, ← List.append_assoc]
        exact List.mem_append_left _ hk
      have hwrite : pendingWrite b.bytes k = some (k, t) :=
        (pendingWrite_eq_some_iff hkey).mpr ⟨rfl, ht⟩
      rcases List.mem_append.mp hk with hleft | hskip
      · rw [← hl]
        exact List.mem_filterMap.mpr ⟨k, hleft, hwrite⟩
      · cases (hskipped k hskip).symm.trans hwrite
    rw [← hl] at hmem
    obtain ⟨k, hk, hwrite⟩ := List.mem_filterMap.mp hmem
    have hkey : k ∈ kSettingKeys := by
      rw [hkeys]
      exact List.mem_append_left _ hk
    obtain ⟨rfl, ht⟩ := (pendingWrite_eq_some_iff hkey).mp hwrite
    exact ⟨l ++ skipped, w.1, rest, w.2, by rw [hkeys, List.append_assoc], hpending, hw,
      fun k hk t ht => hbefore _ (hdone k hk t ht), List.mem_append_left _ hk, ht⟩
  · rintro ⟨done, failing, rest, u, hkeys, hpending, hfails, hdone, hkey, ht⟩
    have hin : ∀ k ∈ done ++ failing :: rest, k ∈ kSettingKeys := fun k hk => hkeys ▸ hk
    have hwrite : pendingWrite b.bytes failing = some (failing, u) :=
      (pendingWrite_eq_some_iff (hin _ (by simp))).mpr ⟨rfl, hpending⟩
    have hsplit : pendingWrites b.bytes = done.filterMap (pendingWrite b.bytes) ++
        (failing, u) :: rest.filterMap (pendingWrite b.bytes) := by
      unfold pendingWrites
      rw [hkeys, List.filterMap_append, List.filterMap_cons_some hwrite]
    have hok : ∀ w ∈ done.filterMap (pendingWrite b.bytes), ok w = true := by
      intro w hw
      obtain ⟨k, hk, hkw⟩ := List.mem_filterMap.mp hw
      obtain ⟨rfl, hkt⟩ :=
        (pendingWrite_eq_some_iff (hin k (List.mem_append_left _ hk))).mp hkw
      exact hdone _ hk _ hkt
    have hfalse : ok (failing, u) = false := hfails
    rw [hsplit, List.takeWhile_append_of_pos hok, List.takeWhile_cons_of_neg (by simp [hfalse])]
    refine ⟨by simp [hfalse], List.mem_append_left _ (List.mem_filterMap.mpr ⟨key, hkey, ?_⟩)⟩
    exact (pendingWrite_eq_some_iff (hin key (List.mem_append_left _ hkey))).mpr ⟨rfl, ht⟩

/-! ### What the page shows -/

/-- A value on its own is read one way only. -/
theorem data_eq_of_render {v v' : Value} (h : v.render = v'.render) : v.data = v'.data := by
  have htext : (Text.mk .empty v .empty).render = (Text.mk .empty v' .empty).render := by
    simp [Text.render, h]
  exact JsonText.data_unique htext

theorem boolText_eq (x : Bool) :
    boolText x = (Value.literal (if x then .true else .false)).render := by
  cases x <;> rfl

theorem shows_bool_iff {x : Bool} {d : Data} :
    (∃ v : Value, v.render = boolText x ∧ v.data = d) ↔ d = .literal (boolText x) := by
  have hdata : (Value.literal (if x then .true else .false)).data = .literal (boolText x) := by
    cases x <;> rfl
  constructor
  · rintro ⟨v, hv, rfl⟩
    rw [data_eq_of_render (hv.trans (boolText_eq x)), hdata]
  · rintro rfl
    exact ⟨_, (boolText_eq x).symm, hdata⟩

theorem shows_string_iff {s : Bytes} {d : Data} :
    (∃ v : Value, v.render = quoted s ∧ v.data = d) ↔ d = .string s := by
  have hrender : (Value.string (escapedPieces s)).render = quoted s := stringText_escapedPieces s
  have hdata : (Value.string (escapedPieces s)).data = .string s :=
    congrArg Data.string (decode_escapedPieces s)
  constructor
  · rintro ⟨v, hv, rfl⟩
    rw [data_eq_of_render (hv.trans hrender.symm), hdata]
  · rintro rfl
    exact ⟨_, hrender, hdata⟩

/-- A string does not spell itself. -/
theorem not_shows_itself {s : Bytes} : ¬ ∃ v : Value, v.render = s ∧ v.data = .string s := by
  rintro ⟨v, hv, hd⟩
  cases v with
  | string p =>
      have hdecode : JsonText.decode p = s := Data.string.inj hd
      have hlt := JsonText.length_decode_lt p
      rw [hdecode] at hlt
      exact absurd (congrArg List.length hv) (Nat.ne_of_gt hlt)
  | literal | array | object => cases hd

/-- The page gives a stored value back if it is of the kind that the page shows. -/
theorem shows_iff_fits {shown : Shown} {v : Value} (hfind : table.find? key = some t)
    (ht : valueText v.data = some t) (hmasked : shown ≠ .masked) (hfixed : ∀ x, shown ≠ .fixed x) :
    (∃ v' : Value, v'.render = shown.json table key ∧ v'.data = v.data) ↔ shown.Fits v.data := by
  have hliteral : ∀ {u : Bytes}, v.data = .literal u → t = u := by
    intro u hu
    rw [hu] at ht
    exact (Option.some.inj ht).symm
  cases shown with
  | text d =>
      simp only [Shown.json, hfind, Option.getD_some, shows_string_iff, Shown.Fits]
      constructor
      · exact fun h => ⟨t, h⟩
      · rintro ⟨s, hs⟩
        rw [hs] at ht
        rw [hs, Option.some.inj ht]
  | raw d =>
      simp only [Shown.json, hfind, Option.getD_some, Shown.Fits]
      constructor
      · intro h
        cases hd : v.data with
        | literal t => exact ⟨t, rfl⟩
        | string s =>
            rw [hd] at ht h
            rw [← Option.some.inj ht] at h
            exact absurd h not_shows_itself
        | array | object => rw [hd] at ht; cases ht
      · rintro ⟨u, hu⟩
        rw [hu] at ht
        obtain rfl := Option.some.inj ht
        cases v with
        | literal l => exact ⟨.literal l, Data.literal.inj hu, rfl⟩
        | string | array | object => cases hu
  | isOne d =>
      simp only [Shown.json, hfind, Option.getD_some, shows_bool_iff, Shown.Fits]
      by_cases hone : t = str "1"
      · -- "1" is shown as true, and nobody asks for it by either word
        rw [decide_eq_true hone]
        exact iff_of_false (fun h => absurd (hone.symm.trans (hliteral h)) (by decide))
          fun h => absurd (hone.symm.trans (hliteral h)) (by decide)
      · rw [decide_eq_false hone]
        rfl
  | isNotZero d =>
      simp only [Shown.json, hfind, Option.getD_some, shows_bool_iff, Shown.Fits]
      by_cases hzero : t = str "0"
      · rw [decide_eq_false (not_not.mpr hzero)]
        exact iff_of_false (fun h => absurd (hzero.symm.trans (hliteral h)) (by decide))
          fun h => absurd (hzero.symm.trans (hliteral h)) (by decide)
      · rw [decide_eq_true hzero]
        rfl
  | masked => exact absurd rfl hmasked
  | fixed x => exact absurd rfl (hfixed x)

/-! ### The settings are kept -/

theorem exists_value_of_asked {d : Data} (h : (key, d) ∈ b.asked) : ∃ v : Value, v.data = d := by
  unfold SettingsBody.asked at h
  rw [Members.data_eq_own] at h
  obtain ⟨m, -, hm⟩ := List.mem_map.mp h
  exact ⟨m.2, (Prod.mk.inj hm).2⟩

theorem shown_of_setting : ∀ f ∈ reported, f.1 ∈ kSettingKeys → ∀ x, f.2 ≠ .fixed x := by
  have hall : ∀ f ∈ reported, f.1 ∈ kSettingKeys → (f.2 matches .fixed _) = false := by
    decide +kernel
  intro f hf hkey x hx
  have hfalse := hall f hf hkey
  rw [hx] at hfalse
  cases hfalse

theorem gives_iff {d : Data} (hkey : key ∈ kSettingKeys) (hasked : (key, d) ∈ b.asked)
    (hfind : table.find? key = some t) (ht : valueText d = some t) :
    Gives table key d ↔ ∀ shown, (key, shown) ∈ reported → shown.Fits d := by
  obtain ⟨v, rfl⟩ := exists_value_of_asked hasked
  unfold Gives
  refine forall_congr' fun shown => forall_congr' fun hshown => ?_
  by_cases hmasked : shown = .masked
  · subst hmasked
    simp [Shown.Fits]
  · have hfixed := shown_of_setting _ hshown hkey
    rw [shows_iff_fits hfind ht hmasked hfixed]
    simp [hmasked]

theorem kept_iff (hkey : key ∈ kSettingKeys) :
    Kept b (pendingWrites b.bytes) table key ↔ Settable b key := by
  have hmem : ∀ t, (key, t) ∈ pendingWrites b.bytes ↔ Pending b key t := fun t => by
    rw [mem_pendingWrites, and_iff_right hkey]
  have hgives : ∀ {d t}, (key, d) ∈ b.asked → valueText d = some t → Pending b key t →
      (Gives (table.insertAll (pendingWrites b.bytes)) key d ↔
        ∀ shown, (key, shown) ∈ reported → shown.Fits d) := by
    intro d t hasked ht hpending
    exact gives_iff hkey hasked
      (find?_insertAll_of_mem (pairwise_pendingWrites _) ((hmem t).mpr hpending)) ht
  unfold Kept Settable
  simp only [hmem]
  refine or_congr_right (exists_congr fun d => and_congr_right fun hasked =>
    or_congr_right (and_congr_right fun _ => exists_congr fun t => and_congr_right fun ht =>
      and_congr_right fun hpending => hgives hasked ht hpending))

/-- The settings are kept, and a request that is refused leaves them as they were, if every setting
is settable while the database can be reached, and no setting is half done when it fails. -/
theorem settings_faithful_iff (env : SettingsEnv) (table : StringMap) (b : SettingsBody) :
    SettingsFaithful env table b ↔
      (env.Reachable → ∀ key ∈ kSettingKeys, Settable b key) ∧
        (env.pgConfigured = true → NothingHalfDone env table b) := by
  constructor
  · rintro ⟨hkept, -, hrefused⟩
    refine ⟨fun hreach key hkey => (kept_iff hkey).mp (writes_reachable hreach b.bytes ▸
      hkept hreach key hkey), ?_⟩
    intro hpg done failing rest u hkeys hpending hfails hdone k hk t ht hasked
    obtain ⟨m, hm, rfl⟩ := List.mem_map.mp hasked
    obtain ⟨hrefusal, hwritten⟩ := (mem_written_iff hpg).mpr
      ⟨done, failing, rest, u, hkeys, hpending, hfails, hdone, hk, ht⟩
    have hsame := hrefused ((updateSettings_status env b.bytes).mpr hrefusal) m hm
    rw [updateSettings_writes] at hsame
    exact (find?_insertAll_eq_self_iff (pairwise_written hpg b.bytes)).mp hsame t hwritten
  · rintro ⟨hsettable, hhalf⟩
    refine ⟨?_, ?_, ?_⟩
    · intro hreach key hkey
      rw [writes_reachable hreach]
      exact (kept_iff hkey).mpr (hsettable hreach key hkey)
    · exact fun w hw => (mem_pendingWrites.mp (writes_subset env b.bytes hw)).1
    · intro hstatus m hm
      have hrefusal := (updateSettings_status env b.bytes).mp hstatus
      have hpg : env.pgConfigured = true := by
        by_contra hpg
        rw [upsertAll_unconfigured (Bool.eq_false_iff.mpr hpg)] at hrefusal
        cases hrefusal
      rw [updateSettings_writes]
      refine (find?_insertAll_eq_self_iff (pairwise_written hpg b.bytes)).mpr fun t ht => ?_
      obtain ⟨done, failing, rest, u, hkeys, hpending, hfails, hdone, hk, ht⟩ :=
        (mem_written_iff hpg).mp ⟨hrefusal, ht⟩
      exact hhalf hpg done failing rest u hkeys hpending hfails hdone m.1 hk t ht
        (List.mem_map.mpr ⟨m, hm, rfl⟩)

end

/-! ### A switch that stays off -/

/-- `{"turnstile_enabled":true}` -/
def switchingOn : SettingsBody where
  members := .cons .empty (Models.plainPieces (str "turnstile_enabled")) .empty .empty
    (.literal .true) .empty .nil

/-- The switch is stored as true, and the page compares it with 1. -/
theorem not_settings_faithful : ¬ ∀ (env : SettingsEnv) (table : StringMap) (b : SettingsBody),
    SettingsFaithful env table b := by
  intro h
  have hreach : SettingsEnv.Reachable {} := ⟨rfl, fun key _ => rfl⟩
  have hkey : str "turnstile_enabled" ∈ kSettingKeys := by decide +kernel
  have hshown : (str "turnstile_enabled", Shown.isOne (str "0")) ∈ reported := by decide +kernel
  have hasked : switchingOn.asked = [(str "turnstile_enabled", .literal (str "true"))] := by
    unfold SettingsBody.asked switchingOn
    rw [Members.data, Members.data]
    have hname : JsonText.decode (Models.plainPieces (str "turnstile_enabled")) =
        str "turnstile_enabled" := by decide +kernel
    rw [hname]
    rfl
  have hkept := (h {} .empty switchingOn).kept hreach _ hkey
  rw [writes_reachable hreach, kept_iff hkey, Settable, hasked] at hkept
  rcases hkept with ⟨hnone, -⟩ | ⟨d, hd, hmask | ⟨-, t, -, -, hfits⟩⟩
  · exact hnone _ List.mem_cons_self
  · exact absurd hmask.1.1 (by decide +kernel)
  · obtain rfl : d = .literal (str "true") := (Prod.mk.inj (List.mem_singleton.mp hd)).2
    have hfalse : str "true" = str "false" := Data.literal.inj (hfits _ hshown)
    exact absurd hfalse (by decide)

example : (str "turnstile_enabled", Shown.isOne (str "1")) ∉ reported := by decide +kernel

end ExamVan.Admin.Settings
