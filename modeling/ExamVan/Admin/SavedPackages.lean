import ExamVan.Admin.PackageObjects
import ExamVan.Lib.Wire

/-!
# Saving the list of packages

The list sent back is saved row by row. A row comes through as it is if its texts have no control
character, its sizes are whole hundredths of a megabyte and its role is not taken for another one.
-/

namespace ExamVan.Admin

open ByteString JsonText Api Sql Http Models
open Queue (Hits needle)

/-! ### The condition -/

/-- The row is written as it was. -/
structure Package.Exact (p : Package) : Prop where
  key : ∀ c ∈ p.key, 0x20 ≤ c
  label : ∀ c ∈ p.label, 0x20 ≤ c
  maxPdfSize : ∃ k, p.maxPdfSize.toInt = ofHundredths k
  maxStorageSize : ∃ k, p.maxStorageSize.toInt = ofHundredths k
  role : if Hits (str "role") p.key then p.role = p.label
    else if Hits (str "role") p.label then p.role = []
    else p.role ≠ []

/-- A row that has what is written of another. -/
structure Package.SavedAs (p t : Package) : Prop where
  key : t.key = spelledOut p.key
  label : t.label = spelledOut p.label
  maxExams : t.maxExams = p.maxExams
  maxPdfSize : t.maxPdfSize.toInt = ofHundredths (hundredths p.maxPdfSize.toInt)
  maxConcurrentExams : t.maxConcurrentExams = p.maxConcurrentExams
  maxStorageSize : t.maxStorageSize.toInt = ofHundredths (hundredths p.maxStorageSize.toInt)
  maxUsers : t.maxUsers = p.maxUsers
  role : t.role = if Hits (str "role") p.key then spelledOut p.label
    else if Hits (str "role") p.label then []
    else roleText p

/-- The sizes are in the range of a `long long` after rounding, too. -/
def Package.InRange (p : Package) : Prop :=
  ofHundredths (hundredths p.maxPdfSize.toInt) < 2 ^ 63 ∧
    ofHundredths (hundredths p.maxStorageSize.toInt) < 2 ^ 63

/-- The last row under a key comes through as it is, or its key has a control character and is written
over a row that it does not change. -/
def ComesBack (rows : List Package) : Prop :=
  (∀ p ∈ rows, p.InRange) ∧ ∀ p, LastIn (fun p => spelledOut p.key) rows p →
    p.Exact ∨ (∃ c ∈ p.key, c < 0x20) ∧ ∃ t ∈ rows, p.SavedAs t

/-! ### Numbers -/

theorem atoll_intText {n : Int} (h : -2 ^ 63 ≤ n ∧ n < 2 ^ 63) : atoll (intText n) = n := by
  rw [atoll, strtol_intText]
  dsimp only
  omega

theorem integerColumn_toInt (n : Int32) : integerColumn n.toInt = some n := by
  have hrange := n.toInt_lt
  have hlow := n.le_toInt
  rw [integerColumn, if_pos ⟨hlow, hrange⟩, Int32.ofInt_toInt]

theorem ofHundredths_nonneg (k : Nat) : 0 ≤ ofHundredths k := by
  have hnearest := nearest_nonneg (x := (k : ℚ) / 100) (by positivity)
  exact Int.floor_nonneg.mpr (by positivity)

theorem hundredths_ofHundredths {k : ℕ} (h : ofHundredths k < 2 ^ 63) :
    hundredths (ofHundredths k) = k := by
  obtain ⟨n, hn⟩ : ∃ n, n = ofHundredths k := ⟨_, rfl⟩
  obtain ⟨y, hy⟩ : ∃ y, y = nearest ((k : ℚ) / 100) := ⟨_, rfl⟩
  have hsize : n = ⌊y * 1024 * 1024⌋ := by rw [hn, hy, ofHundredths]
  have hk : (0 : ℚ) ≤ k / 100 := by positivity
  have hle : (n : ℚ) ≤ y * 1024 * 1024 := hsize ▸ Int.floor_le _
  have hlt : y * 1024 * 1024 < n + 1 := hsize ▸ Int.lt_floor_add_one _
  have hbound : (n : ℚ) + 1 ≤ 2 ^ 63 := by exact_mod_cast hn ▸ h
  have hpos : (0 : ℚ) ≤ n := by exact_mod_cast hn ▸ ofHundredths_nonneg k
  -- each of the two roundings is off by a 2⁵³rd, and the conversion by a byte
  have hread := abs_nearest_sub_le ((k : ℚ) / 100)
  have hwritten := abs_nearest_sub_le (n : ℚ)
  rw [← hy, abs_of_nonneg hk, abs_le] at hread
  rw [abs_of_nonneg hpos, abs_le] at hwritten
  have hround : roundEven (nearest n / 1048576 * 100) = k := by
    refine roundEven_eq ?_
    rw [abs_lt]
    norm_num at hread hwritten hbound ⊢
    constructor <;> linarith
  rw [hundredths, ← hn, hround]
  rfl

/-- A size comes back as it was exactly if it is a whole number of hundredths. -/
theorem ofHundredths_hundredths_iff {n : Int} (h : n < 2 ^ 63) :
    ofHundredths (hundredths n) = n ↔ ∃ k, n = ofHundredths k := by
  constructor
  · exact fun heq => ⟨_, heq.symm⟩
  · rintro ⟨k, rfl⟩
    rw [hundredths_ofHundredths h]

theorem sizeField_megabytes {o name : Bytes} {size : Int64} (hsize : 0 ≤ size.toInt)
    (h : jsonRawScalar o name = megabytes size) :
    sizeField o name = if ofHundredths (hundredths size.toInt) < 2 ^ 63 then
      some (ofHundredths (hundredths size.toInt)) else none := by
  have hread : atof (megabytes size) = some (nearest (hundredths size.toInt / 100)) :=
    atof_fixedTwo (nearest_megabytes_nonneg hsize)
  have hnonneg := nearest_nonneg (x := (hundredths size.toInt : ℚ) / 100) (by positivity)
  have hsign : ¬ nearest ((hundredths size.toInt : ℚ) / 100) * 1024 * 1024 < 0 :=
    not_lt.mpr (by positivity)
  have hlow : -2 ^ 63 ≤ ofHundredths (hundredths size.toInt) :=
    le_trans (by norm_num) (ofHundredths_nonneg _)
  rw [sizeField, h, hread, Option.bind_some, toLongLong, if_neg hsign, ← ofHundredths]
  simp only [hlow, true_and]

/-! ### One row -/

/-- The row that is written for one of the list. -/
def Package.saved (p : Package) : Package where
  key := spelledOut p.key
  label := spelledOut p.label
  maxExams := p.maxExams
  maxPdfSize := Int64.ofInt (ofHundredths (hundredths p.maxPdfSize.toInt))
  maxConcurrentExams := p.maxConcurrentExams
  maxStorageSize := Int64.ofInt (ofHundredths (hundredths p.maxStorageSize.toInt))
  maxUsers := p.maxUsers
  role := if Hits (str "role") p.key then spelledOut p.label
    else if Hits (str "role") p.label then []
    else roleText p

theorem packageOf_package {p : Package} (hp : p.Valid) :
    packageOf (packageObject p) (ofHundredths (hundredths p.maxPdfSize.toInt))
      (ofHundredths (hundredths p.maxStorageSize.toInt)) = some p.saved := by
  obtain ⟨hexams, -, hconcurrent, -, husers⟩ := jsonRawScalar_package hp
  have hnumber : ∀ n : Int32, integerColumn (atoll (intText n.toInt)) = some n := by
    intro n
    have hlow := n.le_toInt
    have hhigh := n.toInt_lt
    rw [atoll_intText ⟨by omega, by omega⟩, integerColumn_toInt]
  rw [packageOf, hexams, hconcurrent, husers, hnumber, hnumber, hnumber, jsonStringField_key,
    jsonStringField_label, roleField_package hp]
  rfl

theorem spelledOut_ne_nil {s : Bytes} (h : s ≠ []) : spelledOut s ≠ [] := by
  obtain ⟨c, t, rfl⟩ := List.exists_cons_of_ne_nil h
  have hletters : letters c ≠ [] := by
    have hall : ∀ c : UInt8, letters c ≠ [] := forall_byte (by decide)
    exact hall c
  rw [spelledOut, List.flatMap_cons]
  exact List.append_ne_nil_of_left_ne_nil hletters _

instance (p : Package) : Decidable p.InRange := inferInstanceAs (Decidable (_ ∧ _))

/-- One object is one write, if the sizes are in range. -/
theorem saveObjects_cons {p : Package} (hp : p.Valid) (objs : List Bytes) (n : Nat)
    (table : List Package) : saveObjects (packageObject p :: objs) n table =
      if p.InRange then saveObjects objs (n + 1) (put Package.key table p.saved) else none := by
  obtain ⟨-, hpdf, -, hstorage, -⟩ := jsonRawScalar_package hp
  have hkey : jsonStringField (packageObject p) (str "key") ≠ [] := by
    rw [jsonStringField_key]
    exact spelledOut_ne_nil hp.key
  rw [saveObjects, if_neg hkey, sizeField_megabytes hp.maxPdfSize hpdf,
    sizeField_megabytes hp.maxStorageSize hstorage]
  by_cases hfirst : ofHundredths (hundredths p.maxPdfSize.toInt) < 2 ^ 63
  · by_cases hsecond : ofHundredths (hundredths p.maxStorageSize.toInt) < 2 ^ 63
    · have hrange : p.InRange := ⟨hfirst, hsecond⟩
      rw [if_pos hfirst, if_pos hsecond, if_pos hrange, Option.bind_eq_bind, Option.bind_some,
        Option.bind_some, packageOf_package hp]
    · have hrange : ¬ p.InRange := fun h => hsecond h.2
      rw [if_pos hfirst, if_neg hsecond, if_neg hrange]
      rfl
  · have hrange : ¬ p.InRange := fun h => hfirst h.1
    rw [if_neg hfirst, if_neg hrange]
    rfl

theorem saveObjects_packages {rows : List Package} (hrows : ∀ p ∈ rows, p.Valid) (n : Nat)
    (table : List Package) : saveObjects (rows.map packageObject) n table =
      if ∀ p ∈ rows, p.InRange then
        some (n + rows.length, (rows.map Package.saved).foldl (put Package.key) table)
      else none := by
  induction rows generalizing n table with
  | nil => simp [saveObjects]
  | cons p rows ih =>
      obtain ⟨hp, hrest⟩ := List.forall_mem_cons.mp hrows
      rw [List.map_cons, saveObjects_cons hp, ih hrest]
      simp only [List.forall_mem_cons]
      by_cases hrange : p.InRange
      · simp only [hrange, if_true, true_and, List.length_cons, List.map_cons, List.foldl_cons]
        rw [Nat.add_right_comm, Nat.add_assoc]
      · simp [hrange]

/-! ### The objects of the list -/

/-- The list from its first object on, with the brace that closes the body. -/
def joined : List Package → Bytes
  | [] => [chr '\x7d']
  | p :: rest => packageObject p ++ (if rest = [] then chr ']' else chr ',') :: joined rest

theorem packagesJson_append {rows : List Package} (h : rows ≠ []) :
    packagesJson rows ++ [chr '\x7d'] = chr '[' :: joined rows := by
  have hjoined : ∀ rows : List Package, rows ≠ [] →
      [chr ','].intercalate (rows.map packageObject) ++ [chr ']', chr '\x7d'] = joined rows := by
    intro rows hne
    induction rows with
    | nil => exact absurd rfl hne
    | cons p rows ih =>
        cases rows with
        | nil => simp [joined, List.intercalate]
        | cons q rows =>
            rw [List.map_cons, List.intercalate_cons_of_ne_nil (by simp), joined,
              if_neg (List.cons_ne_nil _ _), ← ih (List.cons_ne_nil _ _)]
            simp
  rw [packagesJson, ← hjoined rows h]
  simp

theorem bracketText_package {p : Package} (hp : p.Valid) (t : Bytes) :
    bracketText (chr '\x7b') (chr '\x7d') 0 false false (packageObject p ++ t) =
      some (packageObject p) := by
  obtain ⟨lead, items, hrole, -⟩ := exists_roleText hp
  have hclosing := Brackets.closing_object (b := Middleware.braces) rfl .empty
    (.compact (packageFields p lead items)) t
  rw [← packageObject_eq hp hrole] at hclosing
  rw [bracketText_braces, hclosing, Option.map_some]

/-- The objects are cut out of the list one by one. -/
theorem objectTexts_joined {rows : List Package} (hrows : ∀ p ∈ rows, p.Valid) {fuel : Nat}
    (hfuel : (joined rows).length ≤ fuel) : objectTexts fuel (joined rows) = rows.map packageObject := by
  induction rows generalizing fuel with
  | nil =>
      cases fuel with
      | zero => cases hfuel
      | succ fuel =>
          rw [joined, objectTexts, if_neg (by decide)]
          cases fuel <;> rfl
  | cons p rows ih =>
      obtain ⟨hp, hrest⟩ := List.forall_mem_cons.mp hrows
      obtain ⟨w, hw⟩ : ∃ w, packageObject p = chr '\x7b' :: w := ⟨_, packageObject_eq_strings p⟩
      rw [joined] at hfuel ⊢
      cases fuel with
      | zero => simp at hfuel
      | succ fuel =>
          have hlength : (joined rows).length ≤ fuel := by
            simp only [List.length_append, List.length_cons, hw] at hfuel
            omega
          have hdrop : ∀ c, (packageObject p ++ c :: joined rows).drop ((packageObject p).length + 1) =
              joined rows := by
            intro c
            rw [← List.singleton_append, ← List.append_assoc]
            exact List.drop_left' (by simp)
          have hbracket := bracketText_package hp
            ((if rows = [] then chr ']' else chr ',') :: joined rows)
          have hdropped := hdrop (if rows = [] then chr ']' else chr ',')
          rw [hw, List.cons_append] at hbracket hdropped ⊢
          rw [objectTexts, if_pos rfl, hbracket]
          dsimp only
          rw [hdropped, ih hrest hlength, List.map_cons, hw]

theorem savePackages_sentBack {rows : List Package} (hrows : ∀ p ∈ rows, p.Valid) (hne : rows ≠ []) :
    (savePackages (sentBack rows) rows).map Prod.snd =
      if ∀ p ∈ rows, p.InRange then
        some ((rows.map Package.saved).foldl (put Package.key) rows)
      else none := by
  have htext : sentBack rows =
      chr '\x7b' :: (needle (str "packages") ++ chr ':' :: (chr '[' :: joined rows)) := by
    have hhead : str "\x7b\"packages\":" = chr '\x7b' :: (needle (str "packages") ++ [chr ':']) := by
      decide
    have hend : str "\x7d" = [chr '\x7d'] := by decide
    rw [← packagesJson_append hne, sentBack, hhead, hend]
    simp
  have hfind : findSub (needle (str "packages")) (sentBack rows) =
      some (needle (str "packages") ++ chr ':' :: (chr '[' :: joined rows)) := by
    rw [htext, findSub_name_cons (by decide)]
    exact findSub_of_head ⟨_, rfl⟩
  have harray : findByte (· = chr '[') (needle (str "packages") ++ chr ':' :: (chr '[' :: joined rows)) =
      some (chr '[' :: joined rows) := by
    rw [findByte_append (by decide), ← List.singleton_append, findByte_append (by decide)]
    exact findByte_cons_pos (by decide)
  have hobjects : objectTexts (chr '[' :: joined rows).length (chr '[' :: joined rows) =
      rows.map packageObject := by
    rw [List.length_cons, objectTexts, if_neg (by decide)]
    exact objectTexts_joined hrows le_rfl
  have hsome : rows.map packageObject ≠ [] := by simpa using hne
  have hlength : 0 + rows.length ≠ 0 := by simpa using hne
  rw [savePackages, hfind]
  dsimp only
  rw [harray]
  dsimp only
  rw [hobjects, if_neg hsome, saveObjects_packages hrows]
  split_ifs
  · rw [Option.bind_eq_bind, Option.bind_some]
    dsimp only
    rw [if_neg hlength]
    rfl
  · rfl

/-! ### Unchanged -/

theorem Package.saved_eq_iff {p t : Package} (hp : p.InRange) : p.saved = t ↔ p.SavedAs t := by
  have hsize : ∀ {k : Nat}, ofHundredths k < 2 ^ 63 →
      (Int64.ofInt (ofHundredths k)).toInt = ofHundredths k := fun h =>
    Int64.toInt_ofInt_of_le (le_trans (by norm_num) (ofHundredths_nonneg _)) h
  constructor
  · rintro rfl
    exact ⟨rfl, rfl, rfl, hsize hp.1, rfl, hsize hp.2, rfl, rfl⟩
  · intro h
    obtain ⟨key, label, maxExams, pdf, concurrent, storage, users, role⟩ := t
    obtain ⟨rfl, rfl, rfl, hpdf, rfl, hstorage, rfl, rfl⟩ := h
    have hpdf : Int64.ofInt (ofHundredths (hundredths p.maxPdfSize.toInt)) = pdf :=
      Int64.toInt_inj.mp ((hsize hp.1).trans hpdf.symm)
    have hstorage : Int64.ofInt (ofHundredths (hundredths p.maxStorageSize.toInt)) = storage :=
      Int64.toInt_inj.mp ((hsize hp.2).trans hstorage.symm)
    rw [Package.saved, hpdf, hstorage]

theorem roleText_eq_iff {p : Package} : p.role = roleText p ↔ p.role ≠ [] := by
  unfold roleText
  split_ifs with h
  · rw [h]
    exact iff_of_false (by decide) (not_not.mpr rfl)
  · exact iff_of_true rfl h

/-- A row is saved as itself exactly if nothing in it changes. -/
theorem Package.savedAs_self_iff (p : Package) : p.SavedAs p ↔ p.Exact := by
  have hpdf := ofHundredths_hundredths_iff p.maxPdfSize.toInt_lt
  have hstorage := ofHundredths_hundredths_iff p.maxStorageSize.toInt_lt
  have hrole : spelledOut p.label = p.label →
      ((p.role = if Hits (str "role") p.key then spelledOut p.label
        else if Hits (str "role") p.label then [] else roleText p) ↔
      if Hits (str "role") p.key then p.role = p.label
        else if Hits (str "role") p.label then p.role = [] else p.role ≠ []) := by
    intro hlabel
    rw [hlabel]
    split_ifs
    · exact Iff.rfl
    · exact Iff.rfl
    · exact roleText_eq_iff
  constructor
  · intro h
    exact ⟨spelledOut_eq_self_iff.mp h.key.symm, spelledOut_eq_self_iff.mp h.label.symm,
      hpdf.mp h.maxPdfSize.symm, hstorage.mp h.maxStorageSize.symm, (hrole h.label.symm).mp h.role⟩
  · intro h
    have hlabel := spelledOut_eq_self_iff.mpr h.label
    exact ⟨(spelledOut_eq_self_iff.mpr h.key).symm, hlabel.symm, rfl, (hpdf.mpr h.maxPdfSize).symm, rfl,
      (hstorage.mpr h.maxStorageSize).symm, rfl, (hrole hlabel).mpr h.role⟩

/-- What is written of a row is one of the rows exactly if it is the row itself or, of a key with a
control character, another. -/
theorem saved_mem_iff {rows : List Package} (hkeys : (rows.map Package.key).Nodup) {p : Package}
    (hp : p ∈ rows) (hrange : p.InRange) :
    p.saved ∈ rows ↔ p.Exact ∨ (∃ c ∈ p.key, c < 0x20) ∧ ∃ t ∈ rows, p.SavedAs t := by
  constructor
  · intro hsaved
    by_cases hcontrol : ∃ c ∈ p.key, c < 0x20
    · exact .inr ⟨hcontrol, p.saved, hsaved, (Package.saved_eq_iff hrange).mp rfl⟩
    · push Not at hcontrol
      have hkey : p.saved.key = p.key := spelledOut_of_visible hcontrol
      have hself : p.saved = p := List.inj_on_of_nodup_map hkeys hsaved hp hkey
      exact .inl ((p.savedAs_self_iff).mp ((Package.saved_eq_iff hrange).mp hself))
  · rintro (hexact | ⟨-, t, ht, hsaved⟩)
    · rw [(Package.saved_eq_iff hrange).mpr ((p.savedAs_self_iff).mpr hexact)]
      exact hp
    · rw [(Package.saved_eq_iff hrange).mpr hsaved]
      exact ht

/-- Saving the list that was returned leaves the rows as they were if and only if each comes back. -/
theorem staysUnchanged_iff {rows : List Package} (hkeys : (rows.map Package.key).Nodup)
    (hrows : ∀ p ∈ rows, p.Valid) : StaysUnchanged rows ↔ ComesBack rows := by
  by_cases hne : rows = []
  · subst hne
    refine iff_of_true ⟨_, [], rfl, List.Perm.refl _⟩ ⟨List.forall_mem_nil _, fun p hp => ?_⟩
    exact absurd hp.mem List.not_mem_nil
  have hsaved := savePackages_sentBack hrows hne
  have hunchanged : StaysUnchanged rows ↔
      ∃ saved, (savePackages (sentBack rows) rows).map Prod.snd = some saved ∧ saved.Perm rows := by
    constructor
    · rintro ⟨r, saved, heq, hperm⟩
      exact ⟨saved, by rw [heq]; rfl, hperm⟩
    · rintro ⟨saved, hmap, hperm⟩
      obtain ⟨⟨r, saved⟩, heq, rfl⟩ := Option.map_eq_some_iff.mp hmap
      exact ⟨r, saved, heq, hperm⟩
  rw [hunchanged, hsaved, ComesBack]
  by_cases hrange : ∀ p ∈ rows, p.InRange
  · rw [if_pos hrange, and_iff_right hrange]
    have hlast : ∀ p, LastIn (fun p => spelledOut p.key) rows p →
        (p.saved ∈ rows ↔ p.Exact ∨ (∃ c ∈ p.key, c < 0x20) ∧ ∃ t ∈ rows, p.SavedAs t) :=
      fun p hp => saved_mem_iff hkeys hp.mem (hrange p hp.mem)
    calc (∃ saved, some ((rows.map Package.saved).foldl (put Package.key) rows) = some saved ∧
            saved.Perm rows)
        ↔ ((rows.map Package.saved).foldl (put Package.key) rows).Perm rows := by simp
      _ ↔ ∀ q, LastIn Package.key (rows.map Package.saved) q → q ∈ rows := perm_foldl_put_iff hkeys
      _ ↔ ∀ p, LastIn (fun p => spelledOut p.key) rows p → p.saved ∈ rows := by
          simp only [lastIn_map]
          refine ⟨fun h p hp => h _ ⟨p, hp, rfl⟩, ?_⟩
          rintro h q ⟨p, hp, rfl⟩
          exact h p hp
      _ ↔ _ := forall₂_congr hlast
  · rw [if_neg hrange]
    refine iff_of_false ?_ fun h => hrange h.1
    rintro ⟨saved, hnone, -⟩
    cases hnone

/-! ### Two packages -/

def integGratis : Package :=
  ⟨str "integgratis", str "Paket Integ", 5, 5242880, 1, 52428800, 1, str "[\"guru\"]"⟩

/-- A label with a line break, as it is typed into a form. -/
def twoLines : Package := { integGratis with label := str "Paket\nInteg" }

theorem isRoles_guru : IsRoles (str "[\"guru\"]") := by
  refine ⟨.empty, roleItems [.guru], by decide +kernel, fun v hv => ?_⟩
  obtain rfl : v = .string (plainPieces Role.guru.name) := List.mem_singleton.mp hv
  exact ⟨_, rfl, .guru, (stringText_name .guru).2⟩

theorem valid_integGratis : integGratis.Valid :=
  ⟨by decide, by decide, by decide, by decide, by decide, by decide, .inr isRoles_guru⟩

theorem valid_twoLines : twoLines.Valid :=
  ⟨by decide, by decide, by decide, by decide, by decide, by decide, .inr isRoles_guru⟩

theorem staysUnchanged_integGratis : StaysUnchanged [integGratis] := by
  have hkeys : ([integGratis].map Package.key).Nodup := List.nodup_singleton _
  refine (staysUnchanged_iff hkeys (List.forall_mem_singleton.mpr valid_integGratis)).mpr
    ⟨List.forall_mem_singleton.mpr (by decide +kernel), fun p hp => ?_⟩
  obtain rfl : p = integGratis := List.mem_singleton.mp hp.mem
  exact .inl ⟨by decide, by decide, ⟨500, by decide +kernel⟩, ⟨5000, by decide +kernel⟩, by decide⟩

/-- A line break in a label comes back as a letter. -/
theorem not_staysUnchanged : ¬ ∀ rows : List Package, (rows.map Package.key).Nodup →
    (∀ p ∈ rows, p.Valid ∧ Wire.isValidUtf8 p.label = true) → StaysUnchanged rows := by
  intro h
  have hsaved : (savePackages (sentBack [twoLines]) [twoLines]).map
      (fun r => r.2.map Package.label) = some [str "PaketnInteg"] := by
    decide +kernel
  obtain ⟨r, saved, heq, hperm⟩ := h [twoLines] (List.nodup_singleton _)
    (List.forall_mem_singleton.mpr ⟨valid_twoLines, by decide +kernel⟩)
  rw [heq, Option.map_some, List.perm_singleton.mp hperm] at hsaved
  have hlabel : [twoLines].map Package.label = [str "PaketnInteg"] := Option.some.inj hsaved
  exact absurd hlabel (by decide)

end ExamVan.Admin
