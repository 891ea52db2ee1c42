import Mathlib.Data.List.Induction
import Mathlib.Data.List.Nodup
import FormScript.Keyed

/-!
# Lists with keys

What is found under a key after an entry is put in (`Keyed.find?_put`), and what becomes of the
others: they stay where they are (`Keyed.filter_put`), and so do the keys unless the entry has a new
one (`Keyed.map_put`). `Keyed.putAll` puts entries into an empty list. What it leaves has each key
once, at the place of the first entry with it (`Keyed.map_putAll`), and under it the last one
(`Keyed.find?_putAll`).
-/

namespace FormScript.Keyed

variable {α κ : Type} [DecidableEq κ] {key : α → κ}

/-! ## One entry -/

/-- Into no entries one is put alone. -/
theorem put_nil (entry : α) : put key entry [] = [entry] :=
  rfl

/-- An entry takes the place of the first one if it has the same key, and goes behind it
otherwise. -/
theorem put_cons (entry first : α) (rest : List α) :
    put key entry (first :: rest) =
      if key first = key entry then entry :: rest else first :: put key entry rest := by
  unfold put
  rw [exchange]
  split <;> rfl

/-- What is put into a list is found under its key, and all else as before. -/
theorem find?_put (k : κ) (entry : α) (entries : List α) :
    find? key k (put key entry entries) =
      if key entry = k then some entry else find? key k entries := by
  unfold find?
  induction entries with
  | nil => by_cases hk : key entry = k <;> simp [put_nil, hk]
  | cons first rest ih =>
    by_cases hfirst : key first = key entry
    · by_cases hk : key entry = k <;> simp [put_cons, hfirst, hk]
    · rw [put_cons, if_neg hfirst]
      by_cases hk : key first = k
      · have hne : key entry ≠ k := fun h => hfirst (hk.trans h.symm)
        simp [hk, hne]
      · simp [hk, ih]

/-- An entry is exchanged for the one that is found under its key. -/
theorem exchange_eq (entry : α) (entries : List α) :
    exchange key entry entries = (find? key (key entry) entries, put key entry entries) := by
  refine Prod.ext ?_ rfl
  unfold find?
  induction entries with
  | nil => rfl
  | cons first rest ih =>
    by_cases hkey : key first = key entry
    · simp [exchange, hkey]
    · simp [exchange, hkey, ih]

/-- Only the entry that is put in is new. -/
theorem mem_put {entry e : α} {entries : List α} (h : e ∈ put key entry entries) :
    e = entry ∨ e ∈ entries := by
  induction entries with
  | nil => exact .inl (List.mem_singleton.1 h)
  | cons first rest ih =>
    rw [put_cons] at h
    split at h
    · exact (List.mem_cons.1 h).imp_right (.tail _)
    · rcases List.mem_cons.1 h with rfl | h
      · exact .inr (.head _)
      · exact (ih h).imp_right (.tail _)

/-- An entry with a new key is put at the end, and no other one changes the keys. -/
theorem map_put (entry : α) (entries : List α) :
    (put key entry entries).map key =
      if key entry ∈ entries.map key then entries.map key else entries.map key ++ [key entry] := by
  induction entries with
  | nil => rfl
  | cons first rest ih =>
    rw [put_cons]
    by_cases hkey : key first = key entry
    · simp [hkey]
    · simp only [hkey, if_false, List.map_cons, ih, List.mem_cons, Ne.symm hkey, false_or]
      split <;> rfl

/-- Keys that are different stay so. -/
theorem nodup_put {entries : List α} (h : (entries.map key).Nodup) (entry : α) :
    ((put key entry entries).map key).Nodup := by
  rw [map_put]
  split
  next => exact h
  next hnew =>
    refine List.nodup_append.2 ⟨h, List.nodup_singleton _, ?_⟩
    rintro k hk k' hk' rfl
    exact hnew (List.mem_singleton.1 hk' ▸ hk)

/-- Entries with other keys stay as they are and in their order. -/
theorem filter_put (entry : α) (entries : List α) :
    (put key entry entries).filter (fun e => key e ≠ key entry) =
      entries.filter fun e => key e ≠ key entry := by
  induction entries with
  | nil => simp [put_nil]
  | cons first rest ih =>
    rw [put_cons]
    by_cases hkey : key first = key entry
    · simp [hkey]
    · rw [if_neg hkey, List.filter_cons_of_pos (by simpa using hkey), ih,
        List.filter_cons_of_pos (by simpa using hkey)]

/-- An entry that is put in a second time changes nothing. -/
theorem put_put (entry : α) (entries : List α) :
    put key entry (put key entry entries) = put key entry entries := by
  induction entries with
  | nil => simp [put_nil, put_cons]
  | cons first rest ih =>
    rw [put_cons]
    split
    · rw [put_cons, if_pos rfl]
    · next hkey => rw [put_cons, if_neg hkey, ih]

/-- Among entries with different keys, the one that is found is the only one with its key. -/
theorem filter_eq_find? {entries : List α} (h : (entries.map key).Nodup) (k : κ) :
    entries.filter (fun entry => key entry = k) = (find? key k entries).toList := by
  unfold find?
  induction entries with
  | nil => rfl
  | cons first rest ih =>
    rw [List.map_cons, List.nodup_cons] at h
    by_cases hkey : key first = k
    · have hrest : ∀ entry ∈ rest, key entry ≠ k := by
        intro entry hentry heq
        exact h.1 (hkey ▸ heq ▸ List.mem_map_of_mem hentry)
      simpa [hkey] using hrest
    · simpa [hkey] using ih h.2

/-- Among entries with different keys, each is found under its own. -/
theorem find?_of_mem {entries : List α} (h : (entries.map key).Nodup) {entry : α}
    (hmem : entry ∈ entries) : find? key (key entry) entries = some entry := by
  have hfound : entry ∈ entries.filter (fun other => key other = key entry) :=
    List.mem_filter.2 ⟨hmem, decide_eq_true rfl⟩
  rwa [filter_eq_find? h, Option.mem_toList] at hfound

/-- An entry with a new key comes behind the others. -/
theorem put_of_not_mem {entry : α} {entries : List α} (h : key entry ∉ entries.map key) :
    put key entry entries = entries ++ [entry] := by
  induction entries with
  | nil => rfl
  | cons first rest ih =>
    rw [List.map_cons, List.mem_cons, not_or] at h
    rw [put_cons, if_neg (Ne.symm h.1), ih h.2, List.cons_append]

/-- An entry takes the place of the first one with its key. -/
theorem put_append_cons {entry old : α} {front : List α} (behind : List α)
    (hfront : key entry ∉ front.map key) (hkey : key old = key entry) :
    put key entry (front ++ old :: behind) = front ++ entry :: behind := by
  induction front with
  | nil => rw [List.nil_append, put_cons, if_pos hkey, List.nil_append]
  | cons first rest ih =>
    rw [List.map_cons, List.mem_cons, not_or] at hfront
    rw [List.cons_append, put_cons, if_neg (Ne.symm hfront.1), ih hfront.2, List.cons_append]

/-! ## Entries that are put in one after the other -/

/-- Puts entries into an empty list, the first one first. -/
def putAll (key : α → κ) (entries : List α) : List α :=
  entries.foldl (fun kept entry => put key entry kept) []

/-- The last entry is put in when the others are. -/
theorem putAll_concat (entries : List α) (entry : α) :
    putAll key (entries ++ [entry]) = put key entry (putAll key entries) :=
  List.foldl_concat ..

/-- A new key comes behind the others. -/
theorem eraseDups_concat (ks : List κ) (k : κ) :
    (ks ++ [k]).eraseDups = if k ∈ ks then ks.eraseDups else ks.eraseDups ++ [k] := by
  rw [List.eraseDups_append]
  by_cases hk : k ∈ ks <;> simp [List.removeAll, List.eraseDups_cons, hk]

/-- Keys stand in the order in which they first come. -/
theorem map_putAll (entries : List α) :
    (putAll key entries).map key = (entries.map key).eraseDups := by
  induction entries using List.reverseRecOn with
  | nil => rfl
  | append_singleton entries entry ih =>
    rw [putAll_concat, map_put, ih, List.map_append, List.map_singleton, eraseDups_concat]
    simp only [List.mem_eraseDups]

/-- Each key is there once. -/
theorem nodup_putAll (entries : List α) : ((putAll key entries).map key).Nodup := by
  induction entries using List.reverseRecOn with
  | nil => exact .nil
  | append_singleton entries entry ih =>
    rw [putAll_concat]
    exact nodup_put ih entry

/-- Under a key stands the last entry with it. -/
theorem find?_putAll (k : κ) (entries : List α) :
    find? key k (putAll key entries) = (entries.filter fun entry => key entry = k).getLast? := by
  induction entries using List.reverseRecOn with
  | nil => rfl
  | append_singleton entries entry ih =>
    rw [putAll_concat, find?_put, ih, List.filter_append]
    by_cases hkey : key entry = k <;> simp [hkey]

end FormScript.Keyed
