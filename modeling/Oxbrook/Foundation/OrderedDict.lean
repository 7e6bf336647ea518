import Mathlib.Data.List.Nodup
import Mathlib.Data.List.Perm.Basic

/-!
# Dictionaries that keep the order of insertion

The items of such a dictionary are a list of pairs with distinct keys, the oldest key first.  Setting a key that is
there keeps its place; a new one comes last, and the last one can be taken off.  What a dictionary holds is `get`,
which does not see the order; `Holds` says that two of them hold the same.
-/

/-- A dictionary that keeps the order of insertion. -/
@[ext]
structure OrderedDict (κ ν : Type) where
  items : List (κ × ν)
  nodup : (items.map Prod.fst).Nodup

namespace OrderedDict

variable {κ ν : Type} [DecidableEq κ]

def empty : OrderedDict κ ν := ⟨[], List.nodup_nil⟩

def keys (d : OrderedDict κ ν) : List κ := d.items.map Prod.fst

def get (d : OrderedDict κ ν) (k : κ) : Option ν := d.items.lookup k

/-- The items after a key was set. -/
def setItems (items : List (κ × ν)) (item : κ × ν) : List (κ × ν) :=
  if item.1 ∈ items.map Prod.fst then items.map fun old => if old.1 = item.1 then item else old
  else items ++ [item]

lemma keys_setItems_of_mem {items : List (κ × ν)} {item : κ × ν} (h : item.1 ∈ items.map Prod.fst) :
    (setItems items item).map Prod.fst = items.map Prod.fst := by
  unfold setItems
  rw [if_pos h, List.map_map]
  apply List.map_congr_left
  intro old _
  by_cases hold : old.1 = item.1
  · simp [hold]
  · simp [hold]

lemma nodup_setItems {items : List (κ × ν)} (h : (items.map Prod.fst).Nodup) (item : κ × ν) :
    ((setItems items item).map Prod.fst).Nodup := by
  by_cases hmem : item.1 ∈ items.map Prod.fst
  · rw [keys_setItems_of_mem hmem]
    exact h
  · unfold setItems
    rw [if_neg hmem, List.map_append, List.map_singleton]
    exact List.nodup_append.mpr ⟨h, List.nodup_singleton _, by
      intro k hk k' hk' heq
      rw [List.mem_singleton] at hk'
      rw [heq, hk'] at hk
      exact hmem hk⟩

def set (d : OrderedDict κ ν) (k : κ) (v : ν) : OrderedDict κ ν := ⟨setItems d.items (k, v), nodup_setItems d.nodup _⟩

def erase (d : OrderedDict κ ν) (k : κ) : OrderedDict κ ν where
  items := d.items.filter fun item => item.1 ≠ k
  nodup := d.nodup.sublist (List.filter_sublist.map _)

/-- Several keys are erased, one after the other. -/
def eraseAll (d : OrderedDict κ ν) (ks : List κ) : OrderedDict κ ν := ks.foldl erase d

/-- The dictionary without the item that was inserted last. -/
def dropLast (d : OrderedDict κ ν) : OrderedDict κ ν where
  items := d.items.dropLast
  nodup := d.nodup.sublist ((List.dropLast_sublist _).map _)

/-- Several items are set, one after the other. -/
def update (d : OrderedDict κ ν) (items : List (κ × ν)) : OrderedDict κ ν :=
  items.foldl (fun d item => d.set item.1 item.2) d

/-- The two hold the same. -/
def Holds (d d' : OrderedDict κ ν) : Prop := ∀ k, d.get k = d'.get k

variable {d : OrderedDict κ ν} {k k' : κ} {v v' : ν}

/-! ## What is in a dictionary -/

lemma get_eq_some_iff : d.get k = some v ↔ (k, v) ∈ d.items := by
  unfold get
  rw [List.lookup_eq_some_iff]
  constructor
  · rintro ⟨before, after, hitems, _⟩
    simp [hitems]
  · intro h
    obtain ⟨before, after, hitems⟩ := List.append_of_mem h
    refine ⟨before, after, hitems, ?_⟩
    intro item hitem
    have hnodup := d.nodup
    rw [hitems, List.map_append, List.nodup_append] at hnodup
    have hne : item.1 ≠ k := hnodup.2.2 item.1 (List.mem_map_of_mem hitem) k (by simp)
    simpa using hne.symm

lemma get_eq_none_iff : d.get k = none ↔ k ∉ d.keys := by
  rw [Option.eq_none_iff_forall_ne_some]
  unfold keys
  constructor
  · intro h hk
    obtain ⟨⟨k', v⟩, hmem, rfl⟩ := List.mem_map.mp hk
    exact h v (get_eq_some_iff.mpr hmem)
  · intro h v hget
    exact h (List.mem_map_of_mem (get_eq_some_iff.mp hget))

lemma mem_setItems {items : List (κ × ν)} {item other : κ × ν} :
    other ∈ setItems items item ↔ other = item ∨ (other ∈ items ∧ other.1 ≠ item.1) := by
  unfold setItems
  by_cases hmem : item.1 ∈ items.map Prod.fst
  · rw [if_pos hmem, List.mem_map]
    constructor
    · rintro ⟨old, hold, rfl⟩
      by_cases heq : old.1 = item.1
      · simp [heq]
      · simp [heq, hold]
    · rintro (rfl | ⟨hother, hne⟩)
      · obtain ⟨old, hold, heq⟩ := List.mem_map.mp hmem
        exact ⟨old, hold, by simp [heq]⟩
      · exact ⟨other, hother, by simp [hne]⟩
  · rw [if_neg hmem, List.mem_append, List.mem_singleton]
    constructor
    · rintro (hother | rfl)
      · refine .inr ⟨hother, ?_⟩
        intro heq
        exact hmem (heq ▸ List.mem_map_of_mem hother)
      · exact .inl rfl
    · rintro (rfl | ⟨hother, _⟩)
      · exact .inr rfl
      · exact .inl hother

/-! ## What the operations leave -/

/-- Two dictionaries with the same value for a key, or with none. -/
lemma get_eq_get_of_mem_iff {d' : OrderedDict κ ν} (h : ∀ v, (k, v) ∈ d.items ↔ (k, v) ∈ d'.items) :
    d.get k = d'.get k := by
  apply Option.ext
  intro v
  rw [get_eq_some_iff, get_eq_some_iff]
  exact h v

lemma get_set_self : (d.set k v).get k = some v := by
  rw [get_eq_some_iff]
  exact mem_setItems.mpr (.inl rfl)

lemma get_set_ne (h : k' ≠ k) : (d.set k v).get k' = d.get k' := by
  apply get_eq_get_of_mem_iff
  intro v'
  unfold set
  rw [mem_setItems]
  simp [h]

lemma get_erase_self : (d.erase k).get k = none := by
  rw [get_eq_none_iff]
  simp [keys, erase]

lemma get_erase_ne (h : k' ≠ k) : (d.erase k).get k' = d.get k' := by
  apply get_eq_get_of_mem_iff
  intro v
  simp [erase, h]

lemma erase_eq_self (h : k ∉ d.keys) : d.erase k = d := by
  apply OrderedDict.ext
  apply List.filter_eq_self.mpr
  intro item hitem
  have hne : item.1 ≠ k := fun heq => h (heq ▸ List.mem_map_of_mem hitem)
  simpa using hne

/-- What is left after a key was erased was there before. -/
lemma get_of_get_erase (h : (d.erase k).get k' = some v) : d.get k' = some v := by
  rw [get_eq_some_iff] at h ⊢
  exact (List.mem_filter.mp h).1

/-- What there is after a key was set is the new value, or was there before. -/
lemma get_of_get_set (h : (d.set k v).get k' = some v') : k' = k ∧ v' = v ∨ d.get k' = some v' := by
  by_cases hk : k' = k
  · subst hk
    rw [get_set_self] at h
    exact .inl ⟨rfl, (Option.some.inj h).symm⟩
  · rw [get_set_ne hk] at h
    exact .inr h

/-- Erasing the oldest key leaves the other items. -/
lemma items_erase_head {item : κ × ν} {rest : List (κ × ν)} (h : d.items = item :: rest) :
    (d.erase item.1).items = rest := by
  have hnodup := d.nodup
  rw [h, List.map_cons, List.nodup_cons] at hnodup
  have hitems : (d.erase item.1).items = d.items.filter fun other => other.1 ≠ item.1 := rfl
  rw [hitems, h, List.filter_cons_of_neg (by simp), List.filter_eq_self]
  intro other hother
  have hne : other.1 ≠ item.1 := fun heq => hnodup.1 (heq ▸ List.mem_map_of_mem hother)
  simpa using hne

lemma keys_erase_head {rest : List κ} (h : d.keys = k :: rest) : (d.erase k).keys = rest := by
  obtain ⟨item, items, hitems, rfl, rfl⟩ := List.map_eq_cons_iff.mp h
  rw [keys, items_erase_head hitems]

lemma mem_keys_set : k' ∈ (d.set k v).keys ↔ k' = k ∨ k' ∈ d.keys := by
  by_cases hk : k' = k
  · subst hk
    have hmem : (k', v) ∈ (d.set k' v).items := mem_setItems.mpr (.inl rfl)
    exact iff_of_true (List.mem_map_of_mem hmem) (.inl rfl)
  · have hsame : (d.set k v).get k' = d.get k' := get_set_ne hk
    rw [← not_iff_not, ← get_eq_none_iff, hsame, get_eq_none_iff]
    simp [hk]

lemma length_erase_le : (d.erase k).keys.length ≤ d.keys.length := by
  unfold keys erase
  rw [List.length_map, List.length_map]
  exact List.length_filter_le ..

lemma length_set_le : (d.set k v).keys.length ≤ d.keys.length + 1 := by
  unfold keys set setItems
  split <;> simp

lemma items_eraseAll (ks : List κ) : (d.eraseAll ks).items = d.items.filter fun item => item.1 ∉ ks := by
  induction ks generalizing d with
  | nil => simp [eraseAll]
  | cons k ks ih =>
    have hstep : d.eraseAll (k :: ks) = (d.erase k).eraseAll ks := rfl
    rw [hstep, ih]
    simp only [erase, List.filter_filter]
    apply List.filter_congr
    intro item _
    simp [Bool.and_comm]

/-- Erasing the keys of the items that have a property leaves the others. -/
lemma items_eraseAll_filter (p : κ × ν → Bool) :
    (d.eraseAll ((d.items.filter p).map Prod.fst)).items = d.items.filter fun item => ! p item := by
  rw [items_eraseAll]
  apply List.filter_congr
  intro item hitem
  have hmem : item.1 ∈ (d.items.filter p).map Prod.fst ↔ p item = true := by
    constructor
    · intro h
      obtain ⟨other, hother, hkey⟩ := List.mem_map.mp h
      obtain ⟨hmem, hp⟩ := List.mem_filter.mp hother
      have hsame : other = item := List.inj_on_of_nodup_map d.nodup hmem hitem hkey
      rw [← hsame]
      exact hp
    · intro hp
      exact List.mem_map_of_mem (List.mem_filter.mpr ⟨hitem, hp⟩)
  rw [Bool.eq_iff_iff, decide_eq_true_iff, hmem]
  simp

/-- Erasing the oldest keys leaves the others. -/
lemma items_eraseAll_take (n : ℕ) : (d.eraseAll (d.keys.take n)).items = d.items.drop n := by
  induction n generalizing d with
  | zero => simp [eraseAll]
  | succ n ih =>
    cases hitems : d.items with
    | nil => simp [keys, hitems, eraseAll]
    | cons item rest =>
      have hkeys : d.keys = item.1 :: rest.map Prod.fst := by rw [keys, hitems, List.map_cons]
      have herase := items_erase_head hitems
      have hrest : rest.map Prod.fst = (d.erase item.1).keys := by rw [keys, herase]
      have hstep : d.eraseAll (item.1 :: (rest.map Prod.fst).take n) =
          (d.erase item.1).eraseAll ((rest.map Prod.fst).take n) := rfl
      rw [hkeys, List.take_succ_cons, hstep, hrest, ih, herase, List.drop_succ_cons]

/-- A new key comes last. -/
lemma items_set_of_not_mem (h : k ∉ d.keys) : (d.set k v).items = d.items ++ [(k, v)] := by
  unfold set setItems
  exact if_neg h

/-- New items come last, in their order. -/
lemma items_update_of_not_mem {items : List (κ × ν)} (hnodup : (items.map Prod.fst).Nodup)
    (hnew : ∀ item ∈ items, item.1 ∉ d.keys) : (d.update items).items = d.items ++ items := by
  induction items generalizing d with
  | nil => exact (List.append_nil _).symm
  | cons item rest ih =>
    rw [List.map_cons, List.nodup_cons] at hnodup
    have hstep : d.update (item :: rest) = (d.set item.1 item.2).update rest := rfl
    have hset := items_set_of_not_mem (v := item.2) (hnew item (List.mem_cons_self ..))
    rw [hstep, ih hnodup.2, hset, List.append_assoc, List.singleton_append]
    intro other hother hmem
    rcases mem_keys_set.mp hmem with heq | hmem
    · exact hnodup.1 (heq ▸ List.mem_map_of_mem hother)
    · exact hnew other (List.mem_cons_of_mem _ hother) hmem

/-- A dictionary is made again of its items. -/
lemma update_empty_items (d : OrderedDict κ ν) : empty.update d.items = d := by
  have hitems : (empty.update d.items).items = d.items := items_update_of_not_mem d.nodup (by simp [keys, empty])
  cases hd : empty.update d.items
  cases d
  rw [hd] at hitems
  cases hitems
  rfl

/-- The item that was inserted last is the only one that goes. -/
lemma get_dropLast_self {rest : List (κ × ν)} (h : d.items = rest ++ [(k, v)]) : d.dropLast.get k = none := by
  have hnodup := d.nodup
  rw [h, List.map_append, List.nodup_append] at hnodup
  have hitems : d.dropLast.items = rest := by
    change d.items.dropLast = rest
    rw [h, List.dropLast_concat]
  rw [get_eq_none_iff]
  unfold keys
  rw [hitems]
  intro hk
  exact hnodup.2.2 k hk k (by simp) rfl

/-- The value that a list of items has for a key is the last. -/
lemma get_update (items : List (κ × ν)) : (d.update items).get k = (items.reverse.lookup k).or (d.get k) := by
  induction items generalizing d with
  | nil => rfl
  | cons item rest ih =>
    obtain ⟨k', v⟩ := item
    have hstep : d.update ((k', v) :: rest) = (d.set k' v).update rest := rfl
    rw [hstep, ih, List.reverse_cons, List.lookup_append, Option.or_assoc]
    congr 1
    by_cases hk : k = k'
    · subst hk
      rw [get_set_self]
      simp
    · rw [get_set_ne hk]
      simp [List.lookup_cons, beq_eq_false_iff_ne.mpr hk]

lemma get_update_of_ne {items : List (κ × ν)} (h : ∀ item ∈ items, item.1 ≠ k) : (d.update items).get k = d.get k := by
  have hnone : items.reverse.lookup k = none := by
    rw [List.lookup_eq_none_iff]
    intro item hitem
    simpa using (h item (List.mem_reverse.mp hitem)).symm
  rw [get_update, hnone, Option.none_or]

/-- The last item of a key is the one that counts. -/
lemma get_update_append_cons {before after : List (κ × ν)} (h : ∀ item ∈ after, item.1 ≠ k) :
    (d.update (before ++ (k, v) :: after)).get k = some v := by
  have hsplit : d.update (before ++ (k, v) :: after) = ((d.update before).set k v).update after := by
    rw [update, List.foldl_append]
    rfl
  rw [hsplit, get_update_of_ne h, get_set_self]

/-- A dictionary is updated with another. -/
lemma get_update_items (d' : OrderedDict κ ν) : (d.update d'.items).get k = (d'.get k).or (d.get k) := by
  have hreverse : d'.items.reverse.lookup k = d'.get k := by
    have hnodup : (d'.items.reverse.map Prod.fst).Nodup := by
      rw [List.map_reverse, List.nodup_reverse]
      exact d'.nodup
    let reversed : OrderedDict κ ν := ⟨d'.items.reverse, hnodup⟩
    apply get_eq_get_of_mem_iff (d := reversed)
    intro v
    exact List.mem_reverse
  rw [get_update, hreverse]

/-! ## The order does not matter -/

/-- Dictionaries that hold the same have the same items, in some order. -/
lemma Holds.perm {d' : OrderedDict κ ν} (h : d.Holds d') : d.items.Perm d'.items := by
  rw [List.perm_ext_iff_of_nodup d.nodup.of_map d'.nodup.of_map]
  rintro ⟨k, v⟩
  rw [← get_eq_some_iff, ← get_eq_some_iff, h k]

/-- A dictionary with one key. -/
lemma items_eq_singleton_iff : d.items = [(k, v)] ↔ d.get k = some v ∧ ∀ k', k' ≠ k → d.get k' = none := by
  constructor
  · intro h
    constructor
    · rw [get_eq_some_iff, h]
      exact List.mem_singleton_self _
    · intro k' hk
      rw [get_eq_none_iff, keys, h]
      simpa using hk
  · rintro ⟨hget, hother⟩
    have hholds : d.Holds (empty.set k v) := by
      intro k'
      by_cases hk : k' = k
      · rw [hk, hget, get_set_self]
      · rw [hother k' hk, get_set_ne hk]
        rfl
    exact List.perm_singleton.mp hholds.perm

/-- A key that was set is added to what else there is. -/
lemma perm_set : (d.set k v).items.Perm ((k, v) :: (d.erase k).items) := by
  have hfresh : (k, v) ∉ (d.erase k).items := by simp [erase]
  have hnodup : ((k, v) :: (d.erase k).items).Nodup := List.nodup_cons.mpr ⟨hfresh, (d.erase k).nodup.of_map⟩
  rw [List.perm_ext_iff_of_nodup (d.set k v).nodup.of_map hnodup]
  intro item
  unfold set
  rw [mem_setItems, List.mem_cons]
  simp [erase]

/-- What a key has is what is lost with it. -/
lemma perm_erase (h : d.get k = some v) : d.items.Perm ((k, v) :: (d.erase k).items) := by
  have hset : (d.set k v).Holds d := by
    intro k'
    by_cases hk : k' = k
    · rw [hk, get_set_self, h]
    · exact get_set_ne hk
  exact hset.perm.symm.trans perm_set

end OrderedDict
