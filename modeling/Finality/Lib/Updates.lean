import Mathlib.Data.List.AList

/-!
# Updates of tables

An update puts values into a table, one key after the other. With distinct keys it leaves under each
key what it put there and other keys alone (`lookup_foldl_insert`), and the entries of the table are
the new ones and the old ones under other keys (`entries_foldl_insert`); so of two updates with the
same keys the last one counts (`foldl_insert_foldl_insert`). Entries under the other keys are not
touched, whether the keys are distinct or not (`filter_foldl_insert`).
-/

namespace Updates

variable {K V W : Type _} [DecidableEq K] {f : W → V}

/-- Erasing a key keeps the entries under other keys. -/
theorem kerase_eq_filter {k : K} {es : List (Sigma fun _ : K => V)} (h : es.NodupKeys) :
    List.kerase k es = es.filter fun e => k ≠ e.1 := by
  induction es with
  | nil => rfl
  | cons e es ih =>
    rw [List.nodupKeys_cons] at h
    obtain ⟨hnew, hrest⟩ := h
    by_cases he : k = e.1
    · have hkept : ∀ e' ∈ es, k ≠ e'.1 := by
        intro e' he' heq
        exact hnew (he ▸ heq ▸ List.mem_keys_of_mem he')
      rw [List.kerase_cons_eq he, List.filter_cons_of_neg (by simpa using he),
        List.filter_eq_self.2 fun e' he' => decide_eq_true (hkept e' he')]
    · rw [List.kerase_cons_ne he, List.filter_cons_of_pos (by simpa using he), ih hrest]

/-- An update with distinct keys leaves under each what it put there, and other keys alone. -/
theorem lookup_foldl_insert {es : List (K × W)} {d : AList fun _ : K => V}
    (h : (es.map Prod.fst).Nodup) :
    (∀ e ∈ es, (es.foldl (fun d e => d.insert e.1 (f e.2)) d).lookup e.1 = some (f e.2)) ∧
    ∀ k ∉ es.map Prod.fst,
      (es.foldl (fun d e => d.insert e.1 (f e.2)) d).lookup k = d.lookup k := by
  induction es generalizing d with
  | nil => exact ⟨by simp, fun _ _ => rfl⟩
  | cons e es ih =>
    rw [List.map_cons, List.nodup_cons] at h
    obtain ⟨hput, hrest⟩ := ih (d := d.insert e.1 (f e.2)) h.2
    refine ⟨List.forall_mem_cons.2 ⟨?_, hput⟩, fun k hk => ?_⟩
    · rw [List.foldl_cons, hrest _ h.1, AList.lookup_insert]
    · rw [List.map_cons, List.mem_cons, not_or] at hk
      rw [List.foldl_cons, hrest _ hk.2, AList.lookup_insert_ne hk.1]

/-- The table after an update with distinct keys: the new entries, and the old ones under other
keys. -/
theorem entries_foldl_insert {es : List (K × W)} {d : AList fun _ : K => V}
    (h : (es.map Prod.fst).Nodup) :
    (es.foldl (fun d e => d.insert e.1 (f e.2)) d).entries =
      (es.map fun e => ⟨e.1, f e.2⟩).reverse ++
        d.entries.filter fun e => e.1 ∉ es.map Prod.fst := by
  induction es generalizing d with
  | nil => simp
  | cons e es ih =>
    rw [List.map_cons, List.nodup_cons] at h
    have hkept : (d.insert e.1 (f e.2)).entries.filter (fun e => e.1 ∉ es.map Prod.fst) =
        ⟨e.1, f e.2⟩ :: d.entries.filter fun e' => e'.1 ∉ (e :: es).map Prod.fst := by
      rw [AList.entries_insert, List.filter_cons, if_pos (by simpa using h.1),
        kerase_eq_filter d.nodupKeys, List.filter_filter]
      congr 1
      refine List.filter_congr fun e' _ => ?_
      rw [← Bool.decide_and, decide_eq_decide, List.map_cons, List.mem_cons, not_or, and_comm,
        ne_comm]
    rw [List.foldl_cons, ih h.2, hkept]
    simp

/-- Of two updates with the same keys the last one counts. -/
theorem foldl_insert_foldl_insert {es es' : List (K × W)}
    (hkeys : es.map Prod.fst = es'.map Prod.fst) (h : (es.map Prod.fst).Nodup)
    (d : AList fun _ : K => V) :
    es'.foldl (fun d e => d.insert e.1 (f e.2)) (es.foldl (fun d e => d.insert e.1 (f e.2)) d) =
      es'.foldl (fun d e => d.insert e.1 (f e.2)) d := by
  have hgone : (es.map fun e => (⟨e.1, f e.2⟩ : Sigma fun _ : K => V)).reverse.filter
      (fun e => e.1 ∉ es.map Prod.fst) = [] := by
    rw [List.filter_eq_nil_iff]
    intro e he
    obtain ⟨e', he', rfl⟩ := List.mem_map.1 (List.mem_reverse.1 he)
    simpa using List.mem_map_of_mem (f := Prod.fst) he'
  have h' : (es'.map Prod.fst).Nodup := hkeys ▸ h
  apply AList.ext
  rw [entries_foldl_insert h', entries_foldl_insert h, entries_foldl_insert h', ← hkeys,
    List.filter_append, hgone, List.nil_append, List.filter_filter]
  simp only [Bool.and_self]

/-- An update of keys that are filtered out leaves what is filtered alone. -/
theorem filter_foldl_insert {p : K → Bool} {es : List (K × W)} (hp : ∀ e ∈ es, p e.1 = false)
    (d : AList fun _ : K => V) :
    (es.foldl (fun d e => d.insert e.1 (f e.2)) d).entries.filter (fun e => p e.1) =
      d.entries.filter fun e => p e.1 := by
  induction es generalizing d with
  | nil => rfl
  | cons e es ih =>
    rw [List.forall_mem_cons] at hp
    obtain ⟨hhead, hrest⟩ := hp
    have herased : (List.kerase e.1 d.entries).filter (fun e => p e.1) =
        d.entries.filter fun e => p e.1 := by
      rw [kerase_eq_filter d.nodupKeys, List.filter_filter]
      refine List.filter_congr fun e' _ => ?_
      by_cases he : e.1 = e'.1
      · simp [← he, hhead]
      · simp [he]
    rw [List.foldl_cons, ih hrest, AList.entries_insert, List.filter_cons, hhead, herased]
    rfl

end Updates
