import Mathlib.Order.Lattice
import Mathlib.Data.List.Nodup
import Mathlib.Data.List.Pairwise

/-!
# Ordered maps

`std::map` as the list of its entries in key order. The order is part of the type, so two maps with
the same entries are equal and a traversal visits the keys from the smallest to the largest.
-/

/-- A finite map with its entries in strictly increasing key order. -/
@[ext]
structure OrderedMap (κ α : Type*) [LinearOrder κ] where
  entries : List (κ × α)
  sorted : entries.Pairwise fun a b => a.1 < b.1

namespace OrderedMap

variable {κ α : Type*} [LinearOrder κ]

instance [DecidableEq α] : DecidableEq (OrderedMap κ α) := fun m n =>
  decidable_of_iff (m.entries = n.entries) OrderedMap.ext_iff.symm

/-- The empty map. -/
def empty : OrderedMap κ α := ⟨[], List.Pairwise.nil⟩

instance : Inhabited (OrderedMap κ α) := ⟨empty⟩

/-- The entries of `m[key] = value`. -/
def insertEntry (key : κ) (value : α) : List (κ × α) → List (κ × α)
  | [] => [(key, value)]
  | entry :: rest =>
      if key < entry.1 then (key, value) :: entry :: rest
      else if key = entry.1 then (key, value) :: rest
      else entry :: insertEntry key value rest

theorem mem_insertEntry {key : κ} {value : α} {entries : List (κ × α)} {entry : κ × α}
    (h : entry ∈ insertEntry key value entries) : entry = (key, value) ∨ entry ∈ entries := by
  induction entries with
  | nil => simpa [insertEntry] using h
  | cons head rest ih =>
      unfold insertEntry at h
      split at h
      · simpa using h
      · split at h
        · rcases List.mem_cons.mp h with h | h
          · exact Or.inl h
          · exact Or.inr (List.mem_cons_of_mem _ h)
        · rcases List.mem_cons.mp h with h | h
          · exact Or.inr (h ▸ List.mem_cons_self)
          · exact (ih h).imp_right (List.mem_cons_of_mem _)

theorem pairwise_insertEntry {key : κ} {value : α} {entries : List (κ × α)}
    (h : entries.Pairwise fun a b => a.1 < b.1) :
    (insertEntry key value entries).Pairwise fun a b => a.1 < b.1 := by
  induction entries with
  | nil => simp [insertEntry]
  | cons head rest ih =>
      obtain ⟨hhead, hrest⟩ := List.pairwise_cons.mp h
      unfold insertEntry
      split
      · next hlt =>
          refine List.pairwise_cons.mpr ⟨?_, h⟩
          intro entry hentry
          rcases List.mem_cons.mp hentry with rfl | hentry
          · exact hlt
          · exact hlt.trans (hhead entry hentry)
      · next hnlt =>
          split
          · next heq =>
              exact List.pairwise_cons.mpr ⟨fun entry hentry => heq ▸ hhead entry hentry, hrest⟩
          · next hne =>
              refine List.pairwise_cons.mpr ⟨?_, ih hrest⟩
              intro entry hentry
              rcases mem_insertEntry hentry with rfl | hentry
              · exact lt_of_le_of_ne (not_lt.mp hnlt) (Ne.symm hne)
              · exact hhead entry hentry

/-- `m[key] = value`: a new entry, or a new value under a key that is there. -/
def insert (key : κ) (value : α) (m : OrderedMap κ α) : OrderedMap κ α :=
  ⟨insertEntry key value m.entries, pairwise_insertEntry m.sorted⟩

/-- `m.find(key)`. -/
def find? (key : κ) (m : OrderedMap κ α) : Option α :=
  (m.entries.find? fun entry => entry.1 = key).map Prod.snd

/-- What a lookup finds is an entry, and every entry is found under its key. -/
theorem find?_eq_some_iff {m : OrderedMap κ α} {key : κ} {value : α} :
    m.find? key = some value ↔ (key, value) ∈ m.entries := by
  constructor
  · intro h
    obtain ⟨entry, hfind, rfl⟩ := Option.map_eq_some_iff.mp h
    have hkey : entry.1 = key := by simpa using List.find?_some hfind
    exact hkey ▸ List.mem_of_find?_eq_some hfind
  · intro h
    have hfound : (m.entries.find? fun entry => entry.1 = key).isSome = true :=
      List.find?_isSome.mpr ⟨_, h, decide_eq_true rfl⟩
    obtain ⟨entry, hfind⟩ := Option.isSome_iff_exists.mp hfound
    have hkey : entry.1 = key := by simpa using List.find?_some hfind
    have hdistinct : (m.entries.map Prod.fst).Nodup :=
      List.pairwise_map.mpr (m.sorted.imp fun hlt => hlt.ne)
    have hsame : entry = (key, value) :=
      List.inj_on_of_nodup_map hdistinct (List.mem_of_find?_eq_some hfind) h hkey
    rw [find?, hfind, hsame]
    rfl

theorem insertEntry_of_forall_lt {key : κ} {value : α} {entries : List (κ × α)}
    (h : ∀ entry ∈ entries, entry.1 < key) :
    insertEntry key value entries = entries ++ [(key, value)] := by
  induction entries with
  | nil => rfl
  | cons head rest ih =>
      have hhead := h head List.mem_cons_self
      have hrest : ∀ entry ∈ rest, entry.1 < key := fun entry hentry =>
        h entry (List.mem_cons_of_mem _ hentry)
      simp [insertEntry, not_lt.mpr hhead.le, hhead.ne', ih hrest]

/-- A new value stands between the smaller and the greater keys. -/
theorem insertEntry_eq {key : κ} {value : α} {entries : List (κ × α)}
    (h : entries.Pairwise fun a b => a.1 < b.1) :
    insertEntry key value entries =
      entries.filter (fun e => e.1 < key) ++ (key, value) :: entries.filter fun e => key < e.1 := by
  induction entries with
  | nil => rfl
  | cons head rest ih =>
      obtain ⟨hhead, hrest⟩ := List.pairwise_cons.mp h
      have hgreater : ∀ {k : κ}, k ≤ head.1 → rest.filter (fun e => e.1 < k) = [] ∧
          rest.filter (fun e => k < e.1) = rest := by
        intro k hk
        refine ⟨List.filter_eq_nil_iff.mpr fun e he => ?_, List.filter_eq_self.mpr fun e he => ?_⟩
        · simpa using hk.trans (hhead e he).le
        · exact decide_eq_true (hk.trans_lt (hhead e he))
      unfold insertEntry
      split
      next hlt =>
        obtain ⟨hnone, hall⟩ := hgreater hlt.le
        simp [hlt, hlt.le, hnone, hall]
      next hnlt =>
        split
        next heq =>
          obtain ⟨hnone, hall⟩ := hgreater heq.le
          simp [← heq, hnone, hall]
        next hne =>
          have hlt : head.1 < key := lt_of_le_of_ne (not_lt.mp hnlt) (Ne.symm hne)
          simp [hlt, hlt.le, ih hrest]

/-- A test of the keys that the new one fails does not see it. -/
theorem filter_insertEntry_of_not {p : κ → Bool} {key : κ} {value : α} {entries : List (κ × α)}
    (hp : p key = false) :
    (insertEntry key value entries).filter (fun e => p e.1) = entries.filter fun e => p e.1 := by
  induction entries with
  | nil => simp [insertEntry, hp]
  | cons head rest ih =>
      unfold insertEntry
      split
      · simp [hp]
      · split
        next heq => simp [hp, ← heq]
        next => simp [List.filter_cons, ih]

/-- A lookup after `m[key] = value`. -/
theorem find?_insertEntry {key : κ} {value : α} {entries : List (κ × α)}
    (h : entries.Pairwise fun a b => a.1 < b.1) (key' : κ) :
    ((insertEntry key value entries).find? fun e => e.1 = key').map Prod.snd =
      if key' = key then some value else (entries.find? fun e => e.1 = key').map Prod.snd := by
  induction entries with
  | nil => by_cases hkey : key' = key <;> simp [insertEntry, hkey, eq_comm]
  | cons head rest ih =>
      obtain ⟨hhead, hrest⟩ := List.pairwise_cons.mp h
      unfold insertEntry
      split
      · by_cases hkey : key' = key
        · simp [hkey]
        · simp [hkey, Ne.symm hkey]
      · split
        next heq =>
          by_cases hkey : key' = key
          · simp [hkey]
          · simp [hkey, Ne.symm hkey, ← heq]
        next hne =>
          rw [List.find?_cons, List.find?_cons]
          by_cases hkey : head.1 = key'
          · have : key' ≠ key := fun heq => hne (heq ▸ hkey.symm)
            simp [hkey, this]
          · simpa [hkey] using ih hrest

@[simp]
theorem find?_insert_self (m : OrderedMap κ α) (key : κ) (value : α) :
    (m.insert key value).find? key = some value := by
  rw [find?, insert, find?_insertEntry m.sorted, if_pos rfl]

theorem find?_insert_of_ne {m : OrderedMap κ α} {key key' : κ} {value : α} (h : key' ≠ key) :
    (m.insert key value).find? key' = m.find? key' := by
  rw [find?, insert, find?_insertEntry m.sorted, if_neg h, find?]

/-- `m.erase(key)`. -/
def erase (key : κ) (m : OrderedMap κ α) : OrderedMap κ α :=
  ⟨m.entries.filter fun entry => entry.1 ≠ key, m.sorted.filter _⟩

@[simp]
theorem find?_erase_self (m : OrderedMap κ α) (key : κ) : (m.erase key).find? key = none := by
  rw [find?, erase, List.find?_filter, Option.map_eq_none_iff, List.find?_eq_none]
  simp

theorem find?_erase_of_ne {m : OrderedMap κ α} {key key' : κ} (h : key' ≠ key) :
    (m.erase key).find? key' = m.find? key' := by
  rw [find?, erase, List.find?_filter, find?]
  congr 2
  funext entry
  by_cases hentry : entry.1 = key'
  · simp [hentry, h]
  · simp [hentry]

/-- A new value for a key that is there, or none. -/
def modify (key : κ) (f : α → Option α) (m : OrderedMap κ α) : OrderedMap κ α :=
  match m.find? key with
  | none => m
  | some value =>
      match f value with
      | some value' => m.insert key value'
      | none => m.erase key

@[simp]
theorem find?_modify_self (m : OrderedMap κ α) (key : κ) (f : α → Option α) :
    (m.modify key f).find? key = (m.find? key).bind f := by
  unfold modify
  cases hfind : m.find? key with
  | none => exact hfind
  | some value => cases hf : f value <;> simp [hf]

theorem find?_modify_of_ne {m : OrderedMap κ α} {key key' : κ} {f : α → Option α}
    (h : key' ≠ key) : (m.modify key f).find? key' = m.find? key' := by
  unfold modify
  split
  · rfl
  · split
    · exact find?_insert_of_ne h
    · exact find?_erase_of_ne h

/-- What a test of the keys that the new one passes sees. -/
theorem filter_insertEntry {p : κ → Bool} {key : κ} {value : α} {entries : List (κ × α)}
    (h : entries.Pairwise fun a b => a.1 < b.1) (hp : p key = true) :
    (insertEntry key value entries).filter (fun e => p e.1) =
      entries.filter (fun e => p e.1 && e.1 < key) ++
        (key, value) :: entries.filter fun e => p e.1 && key < e.1 := by
  rw [insertEntry_eq h, List.filter_append, List.filter_filter, List.filter_cons,
    if_pos (by exact hp), List.filter_filter]

/-- Writing a list of entries into a map one after the other. -/
def insertAll (m : OrderedMap κ α) (entries : List (κ × α)) : OrderedMap κ α :=
  entries.foldl (fun acc entry => acc.insert entry.1 entry.2) m

@[simp]
theorem insertAll_nil (m : OrderedMap κ α) : m.insertAll [] = m := rfl

@[simp]
theorem insertAll_cons (m : OrderedMap κ α) (entry : κ × α) (entries : List (κ × α)) :
    m.insertAll (entry :: entries) = (m.insert entry.1 entry.2).insertAll entries := rfl

/-- A lookup after a list of writes under different keys. -/
theorem find?_insertAll {entries : List (κ × α)} (h : entries.Pairwise fun a b => a.1 ≠ b.1)
    (m : OrderedMap κ α) (key : κ) :
    (m.insertAll entries).find? key =
      ((entries.find? fun e => e.1 = key).map Prod.snd).or (m.find? key) := by
  induction entries generalizing m with
  | nil => rfl
  | cons e rest ih =>
      obtain ⟨hhead, hrest⟩ := List.pairwise_cons.mp h
      rw [insertAll_cons, ih hrest]
      by_cases hkey : e.1 = key
      · have hnone : (rest.find? fun e => e.1 = key) = none := by
          refine List.find?_eq_none.mpr fun e' he' => ?_
          simpa [← hkey] using (hhead e' he').symm
        rw [hnone, List.find?_cons_of_pos (by simpa using hkey), ← hkey, find?_insert_self]
        rfl
      · rw [List.find?_cons_of_neg (by simpa using hkey), find?_insert_of_ne (Ne.symm hkey)]

/-- A map with its keys and values written anew is looked up by the new keys. -/
theorem find?_insertAll_map {κ' β : Type*} [LinearOrder κ'] {f : κ → κ'} (hf : Function.Injective f)
    (g : α → β) (m : OrderedMap κ α) (key : κ) :
    (empty.insertAll (m.entries.map fun e => (f e.1, g e.2))).find? (f key) = (m.find? key).map g := by
  have hdistinct : (m.entries.map fun e => (f e.1, g e.2)).Pairwise fun a b => a.1 ≠ b.1 :=
    List.pairwise_map.mpr (m.sorted.imp fun hlt h => hlt.ne (hf h))
  have hsame : ((fun e : κ' × β => decide (e.1 = f key)) ∘ fun e : κ × α => (f e.1, g e.2)) =
      fun e => decide (e.1 = key) := by
    funext e
    exact decide_eq_decide.mpr hf.eq_iff
  rw [find?_insertAll hdistinct, List.find?_map, hsame, Option.map_map, find?.eq_def key m,
    Option.map_map]
  exact Option.or_none

/-- A write changes the count of the values with a property by its own key. -/
theorem countP_insertEntry {p : α → Bool} {key : κ} {value : α} {entries : List (κ × α)}
    (h : entries.Pairwise fun a b => a.1 < b.1) :
    (insertEntry key value entries).countP (fun e => p e.2) +
        (((entries.find? fun e => e.1 = key).map Prod.snd).any p).toNat =
      entries.countP (fun e => p e.2) + (p value).toNat := by
  induction entries with
  | nil => cases hp : p value <;> simp [insertEntry, hp]
  | cons head rest ih =>
      obtain ⟨hhead, hrest⟩ := List.pairwise_cons.mp h
      have hcount : ∀ (e : κ × α) (l : List (κ × α)),
          (e :: l).countP (fun e => p e.2) = l.countP (fun e => p e.2) + (p e.2).toNat := by
        intro e l
        rw [List.countP_cons]
        cases p e.2 <;> rfl
      unfold insertEntry
      split
      next hlt =>
        have hnone : ((head :: rest).find? fun e => e.1 = key) = none := by
          refine List.find?_eq_none.mpr fun e he => ?_
          have hkey : key < e.1 := by
            rcases List.mem_cons.mp he with rfl | he
            · exact hlt
            · exact hlt.trans (hhead e he)
          simpa using hkey.ne'
        rw [hnone, hcount]
        rfl
      next hnlt =>
        split
        next heq =>
          rw [List.find?_cons_of_pos (by simpa using heq.symm), hcount, hcount]
          simp only [Option.map_some, Option.any_some]
          omega
        next hne =>
          rw [List.find?_cons_of_neg (by simpa using Ne.symm hne), hcount, hcount]
          have := ih hrest
          omega

theorem insert_ne_empty (m : OrderedMap κ α) (key : κ) (value : α) :
    m.insert key value ≠ empty := by
  intro h
  have hfind := m.find?_insert_self key value
  rw [h] at hfind
  cases hfind

theorem insertAll_ne_empty {m : OrderedMap κ α} {entries : List (κ × α)}
    (h : m ≠ empty ∨ entries ≠ []) : m.insertAll entries ≠ empty := by
  induction entries generalizing m with
  | nil => exact h.resolve_right fun hne => hne rfl
  | cons entry rest ih => exact ih (Or.inl (m.insert_ne_empty entry.1 entry.2))

/-- Writing entries that are in key order, and after every key of `m`, appends them. -/
theorem entries_insertAll {m : OrderedMap κ α} {entries : List (κ × α)}
    (h : (m.entries ++ entries).Pairwise fun a b => a.1 < b.1) :
    (m.insertAll entries).entries = m.entries ++ entries := by
  induction entries generalizing m with
  | nil => simp
  | cons entry entries ih =>
      have hlt : ∀ e ∈ m.entries, e.1 < entry.1 := fun e he =>
        (List.pairwise_append.mp h).2.2 e he entry List.mem_cons_self
      have hins : (m.insert entry.1 entry.2).entries = m.entries ++ [entry] :=
        insertEntry_of_forall_lt hlt
      rw [insertAll_cons, ih (by rw [hins]; simpa using h), hins]
      simp

/-- A map is rebuilt from its own entries. -/
theorem insertAll_entries (m : OrderedMap κ α) : empty.insertAll m.entries = m :=
  OrderedMap.ext (entries_insertAll (by simpa [empty] using m.sorted))

theorem perm_insertEntry {key : κ} {value : α} {entries : List (κ × α)}
    (h : ∀ e ∈ entries, e.1 ≠ key) :
    (insertEntry key value entries).Perm ((key, value) :: entries) := by
  induction entries with
  | nil => exact .refl _
  | cons head rest ih =>
      have hrest := ih fun e he => h e (List.mem_cons_of_mem head he)
      unfold insertEntry
      split
      · exact .refl _
      · rw [if_neg (Ne.symm (h head List.mem_cons_self))]
        exact (hrest.cons head).trans (.swap _ _ rest)

/-- Writing entries under new keys adds them. -/
theorem perm_insertAll {m : OrderedMap κ α} {entries : List (κ × α)}
    (h : (m.entries ++ entries).Pairwise fun a b => a.1 ≠ b.1) :
    (m.insertAll entries).entries.Perm (m.entries ++ entries) := by
  induction entries generalizing m with
  | nil => rw [insertAll_nil, List.append_nil]
  | cons entry entries ih =>
      have hnew : ∀ e ∈ m.entries, e.1 ≠ entry.1 := fun e he =>
        (List.pairwise_append.mp h).2.2 e he entry List.mem_cons_self
      have hinsert : (m.insert entry.1 entry.2).entries.Perm (entry :: m.entries) :=
        perm_insertEntry hnew
      have hmoved : ((m.insert entry.1 entry.2).entries ++ entries).Perm
          (m.entries ++ entry :: entries) :=
        (hinsert.append_right entries).trans List.perm_middle.symm
      have hdistinct := (hmoved.pairwise_iff fun hne => Ne.symm hne).mpr h
      exact (ih hdistinct).trans hmoved

/-- A map is rebuilt from its own entries in any order. -/
theorem insertAll_of_perm {m : OrderedMap κ α} {entries : List (κ × α)}
    (h : entries.Perm m.entries) : empty.insertAll entries = m := by
  have hdistinct : entries.Pairwise fun a b => a.1 ≠ b.1 :=
    (h.pairwise_iff fun hne => Ne.symm hne).mpr (m.sorted.imp fun hlt => hlt.ne)
  have hperm : (empty.insertAll entries).entries.Perm m.entries :=
    (perm_insertAll (m := empty) hdistinct).trans h
  have hanti : ∀ a b : κ × α, a.1 < b.1 → b.1 < a.1 → a = b :=
    fun a b hab hba => absurd (hab.trans hba) (lt_irrefl _)
  exact OrderedMap.ext (hperm.eq_of_pairwise (fun a b _ _ => hanti a b)
    (empty.insertAll entries).sorted m.sorted)

/-! ### Restriction -/

/-- The entries whose keys pass a test. -/
def restrict (p : κ → Bool) (m : OrderedMap κ α) : OrderedMap κ α :=
  ⟨m.entries.filter fun entry => p entry.1, m.sorted.filter _⟩

section

variable {p : κ → Bool} {m m' : OrderedMap κ α} {key : κ}

theorem restrict_insert_of_not (hp : p key = false) (value : α) :
    (m.insert key value).restrict p = m.restrict p :=
  OrderedMap.ext (filter_insertEntry_of_not hp)

theorem restrict_insert_congr (h : m.restrict p = m'.restrict p) (key : κ) (value : α) :
    (m.insert key value).restrict p = (m'.insert key value).restrict p := by
  have hentries : m.entries.filter (fun e => p e.1) = m'.entries.filter fun e => p e.1 :=
    congrArg entries h
  cases hp : p key with
  | false => rw [restrict_insert_of_not hp, restrict_insert_of_not hp, h]
  | true =>
      have hpart : ∀ q : κ → Bool, m.entries.filter (fun e => p e.1 && q e.1) =
          m'.entries.filter fun e => p e.1 && q e.1 := by
        intro q
        rw [← List.filter_filter, ← List.filter_filter, List.filter_comm, hentries,
          List.filter_comm]
      apply OrderedMap.ext
      simp only [restrict, insert, filter_insertEntry m.sorted hp, filter_insertEntry m'.sorted hp]
      exact congrArg₂ (fun low high => low ++ (key, value) :: high) (hpart fun k => k < key)
        (hpart fun k => key < k)

theorem restrict_erase (key : κ) : (m.erase key).restrict p = (m.restrict p).erase key :=
  OrderedMap.ext (List.filter_comm ..)

theorem erase_restrict_of_not (hp : p key = false) : (m.restrict p).erase key = m.restrict p := by
  apply OrderedMap.ext
  refine List.filter_eq_self.mpr fun entry hentry => ?_
  have hpass : p entry.1 = true := by simpa using (List.mem_filter.mp hentry).2
  have hne : entry.1 ≠ key := by
    rintro rfl
    simp [hp] at hpass
  simpa using hne

theorem find?_restrict (hp : p key = true) : (m.restrict p).find? key = m.find? key := by
  rw [find?, restrict, List.find?_filter, find?]
  congr 2
  funext entry
  by_cases hentry : entry.1 = key
  · simp [hentry, hp]
  · simp [hentry]

theorem find?_congr (h : m.restrict p = m'.restrict p) (hp : p key = true) :
    m.find? key = m'.find? key := by
  rw [← find?_restrict hp, h, find?_restrict hp]

/-- A test that only entries of the restriction pass does not tell the two maps apart. -/
theorem filter_congr (h : m.restrict p = m'.restrict p) {q : κ × α → Bool}
    (hq : ∀ entry, q entry = true → p entry.1 = true) :
    m.entries.filter q = m'.entries.filter q := by
  have hentries : m.entries.filter (fun e => p e.1) = m'.entries.filter fun e => p e.1 :=
    congrArg entries h
  have hboth : ∀ l : List (κ × α), l.filter q = (l.filter fun e => p e.1).filter q := by
    intro l
    rw [List.filter_filter]
    refine List.filter_congr fun entry _ => ?_
    cases hpass : q entry with
    | false => rfl
    | true => rw [hq entry hpass, Bool.and_true]
  rw [hboth, hentries, ← hboth]

end

end OrderedMap
