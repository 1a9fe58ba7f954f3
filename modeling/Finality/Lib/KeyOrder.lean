import Mathlib.Data.List.Sort
import Mathlib.Data.List.Nodup
import Mathlib.Data.List.Perm.Basic

/-!
# Association lists ordered by key

An object with distinct keys is a set of entries, and listing it in key order gives one list for
every order its entries arrive in. `sortByKey` is that listing; `sortByKey_eq_of_perm` is the
independence of the arrival order, and `sortByKey_map` says that a map of the keys which preserves
the order commutes with it.

`mapKeys` renames the keys. An injective renaming, such as an encoding of strings, keeps them
distinct and finds under a renamed key what was under the key (`lookup_mapKeys`).
-/

namespace KeyOrder

variable {K K' V V' : Type _} [LinearOrder K] [LinearOrder K']

/-- The entries of an association list in the order of their keys. -/
def sortByKey (ms : List (K × V)) : List (K × V) :=
  ms.insertionSort fun a b => a.1 ≤ b.1

/-- Sorting rearranges. -/
theorem sortByKey_perm (ms : List (K × V)) : (sortByKey ms).Perm ms :=
  List.perm_insertionSort _ ms

/-- It keeps the entries. -/
@[simp] theorem mem_sortByKey {ms : List (K × V)} {m : K × V} : m ∈ sortByKey ms ↔ m ∈ ms :=
  List.mem_insertionSort _

/-- Sorting neither adds nor drops a key. -/
theorem keys_sortByKey_nodup {ms : List (K × V)} :
    ((sortByKey ms).map Prod.fst).Nodup ↔ (ms.map Prod.fst).Nodup :=
  ((sortByKey_perm ms).map Prod.fst).nodup_iff

/-- The sorted entries are in key order. -/
theorem sortByKey_pairwise (ms : List (K × V)) : (sortByKey ms).Pairwise fun a b => a.1 ≤ b.1 :=
  haveI : IsTrans (K × V) fun a b => a.1 ≤ b.1 := ⟨fun _ _ _ h h' => le_trans h h'⟩
  haveI : Std.Total fun a b : K × V => a.1 ≤ b.1 := ⟨fun a b => le_total a.1 b.1⟩
  List.pairwise_insertionSort _ ms

/-- Distinct keys are strictly increasing once sorted. -/
theorem sortByKey_strict {ms : List (K × V)} (h : (ms.map Prod.fst).Nodup) :
    ((sortByKey ms).map Prod.fst).Pairwise (· < ·) := by
  have hnd := keys_sortByKey_nodup.2 h
  have hle := sortByKey_pairwise ms
  rw [List.pairwise_map]
  rw [List.Nodup, List.pairwise_map] at hnd
  exact hle.imp₂ (fun _ _ h1 h2 => lt_of_le_of_ne h1 h2) hnd

/-- Entries listed in key order are left as they are. -/
theorem sortByKey_eq_self {ms : List (K × V)} (h : (ms.map Prod.fst).Pairwise (· < ·)) :
    sortByKey ms = ms :=
  List.Pairwise.insertionSort_eq ((List.pairwise_map.1 h).imp le_of_lt)

omit [LinearOrder K] in
/-- Two entries of an association list with distinct keys that share the key are the same. -/
theorem eq_of_key_eq {ms : List (K × V)} (h : (ms.map Prod.fst).Nodup) {a b : K × V}
    (ha : a ∈ ms) (hb : b ∈ ms) (hk : a.1 = b.1) : a = b :=
  List.inj_on_of_nodup_map h ha hb hk

/-- **The order of arrival does not matter**: two arrangements of the same entries, with distinct
keys, sort to the same list. -/
theorem sortByKey_eq_of_perm {ms ms' : List (K × V)} (hp : ms.Perm ms')
    (hnd : (ms.map Prod.fst).Nodup) : sortByKey ms = sortByKey ms' := by
  refine List.Perm.eq_of_pairwise ?_ (sortByKey_pairwise ms) (sortByKey_pairwise ms')
    ((sortByKey_perm ms).trans (hp.trans (sortByKey_perm ms').symm))
  intro a b ha hb hab hba
  have ha : a ∈ ms := mem_sortByKey.1 ha
  have hb : b ∈ ms := hp.mem_iff.2 (mem_sortByKey.1 hb)
  exact eq_of_key_eq hnd ha hb (le_antisymm hab hba)

/-- Arrangements that sort to the same list hold the same entries. -/
theorem perm_of_sortByKey_eq {ms ms' : List (K × V)} (h : sortByKey ms = sortByKey ms') :
    ms.Perm ms' :=
  (sortByKey_perm ms).symm.trans (h ▸ sortByKey_perm ms')

omit [LinearOrder K] in
/-- Arrangements of the same entries that also list the same distinct keys in the same order are
the same arrangement. -/
theorem eq_of_perm_of_keys_eq : ∀ {ms ms' : List (K × V)}, ms.Perm ms' →
    ms.map Prod.fst = ms'.map Prod.fst → (ms.map Prod.fst).Nodup → ms = ms'
  | [], ms', hp, _, _ => (List.nil_perm.1 hp).symm
  | m :: ms, [], hp, _, _ => absurd hp List.not_perm_cons_nil
  | m :: ms, m' :: ms', hp, hk, hnd => by
    simp only [List.map_cons, List.cons.injEq] at hk
    obtain ⟨hk, hks⟩ := hk
    have hm : m' ∈ m :: ms := hp.mem_iff.2 (by simp)
    obtain rfl : m = m' := eq_of_key_eq hnd (by simp) hm hk
    rw [eq_of_perm_of_keys_eq ((List.perm_cons m).1 hp) hks (List.nodup_cons.1 hnd).2]

/-- A map of keys and values that keeps the order of the keys commutes with sorting. -/
theorem sortByKey_map (f : K → K') (hf : ∀ a b, f a ≤ f b ↔ a ≤ b) (g : K → V → V')
    (ms : List (K × V)) :
    sortByKey (ms.map fun m => (f m.1, g m.1 m.2)) =
      (sortByKey ms).map fun m => (f m.1, g m.1 m.2) :=
  (List.map_insertionSort (fun a b : K × V => a.1 ≤ b.1) (fun a b : K' × V' => a.1 ≤ b.1)
    (fun m => (f m.1, g m.1 m.2)) ms fun a _ b _ => (hf a.1 b.1).symm).symm

/-- **Sorting commutes with a map of the values**, given as a relation: related entries in key
order are the related entries, put in key order. -/
theorem forall₂_sortByKey_iff {r : V → V' → Prop} {ms : List (K × V)} {ns : List (K × V')}
    (hnd : (ms.map Prod.fst).Nodup) :
    List.Forall₂ (fun m n => m.1 = n.1 ∧ r m.2 n.2) (sortByKey ms) ns ↔
      ∃ ns', List.Forall₂ (fun m n => m.1 = n.1 ∧ r m.2 n.2) ms ns' ∧ ns = sortByKey ns' := by
  have hkeys : ∀ {as : List (K × V)} {bs : List (K × V')},
      List.Forall₂ (fun m n => m.1 = n.1 ∧ r m.2 n.2) as bs →
        as.map Prod.fst = bs.map Prod.fst := by
    intro as bs h
    induction h with
    | nil => rfl
    | cons hab _ ih => rw [List.map_cons, List.map_cons, hab.1, ih]
  have hsorted : ∀ {bs : List (K × V')},
      List.Forall₂ (fun m n => m.1 = n.1 ∧ r m.2 n.2) (sortByKey ms) bs → sortByKey bs = bs :=
    fun h => sortByKey_eq_self (hkeys h ▸ sortByKey_strict hnd)
  refine ⟨?_, ?_⟩
  · intro h
    obtain ⟨ns', hns', hp⟩ := List.perm_comp_forall₂ (sortByKey_perm ms).symm h
    refine ⟨ns', hns', ?_⟩
    rw [sortByKey_eq_of_perm hp (hkeys hns' ▸ hnd), hsorted h]
  · rintro ⟨ns', hns', rfl⟩
    obtain ⟨bs, hbs, hp⟩ := List.perm_comp_forall₂ (sortByKey_perm ms) hns'
    have hnd' : (bs.map Prod.fst).Nodup := hkeys hbs ▸ keys_sortByKey_nodup.2 hnd
    rwa [← sortByKey_eq_of_perm hp hnd', hsorted hbs]

/-! ## Renaming the keys -/

omit [LinearOrder K] [LinearOrder K']

/-- The entries under renamed keys. -/
def mapKeys (f : K → K') (ms : List (K × V)) : List (K' × V) :=
  ms.map fun m => (f m.1, m.2)

@[simp] theorem mapKeys_nil (f : K → K') : mapKeys f ([] : List (K × V)) = [] := rfl

@[simp] theorem mapKeys_cons (f : K → K') (k : K) (v : V) (ms : List (K × V)) :
    mapKeys f ((k, v) :: ms) = (f k, v) :: mapKeys f ms := rfl

@[simp] theorem mapKeys_append (f : K → K') (ms ms' : List (K × V)) :
    mapKeys f (ms ++ ms') = mapKeys f ms ++ mapKeys f ms' := List.map_append

/-- The keys are mapped. -/
theorem keys_mapKeys (f : K → K') (ms : List (K × V)) :
    (mapKeys f ms).map Prod.fst = (ms.map Prod.fst).map f := by
  simp [mapKeys]

/-- An injective map brings no new key in. -/
theorem mem_keys_mapKeys {f : K → K'} (hf : Function.Injective f) {ms : List (K × V)} {k : K} :
    f k ∈ (mapKeys f ms).map Prod.fst ↔ k ∈ ms.map Prod.fst := by
  rw [keys_mapKeys, List.mem_map_of_injective hf]

/-- And a lookup finds what it found before. -/
theorem lookup_mapKeys [BEq K] [LawfulBEq K] [BEq K'] [LawfulBEq K'] {f : K → K'}
    (hf : Function.Injective f) (k : K) : ∀ ms : List (K × V),
    (mapKeys f ms).lookup (f k) = ms.lookup k
  | [] => rfl
  | (k', v) :: ms => by
    have hbeq : (f k == f k') = (k == k') := by
      rw [Bool.eq_iff_iff, beq_iff_eq, beq_iff_eq, hf.eq_iff]
    rw [mapKeys_cons, List.lookup_cons, List.lookup_cons, hbeq, lookup_mapKeys hf k ms]

/-- Among entries with distinct keys, a key finds its value. -/
theorem lookup_of_mem [BEq K] [LawfulBEq K] : ∀ {ms : List (K × V)} {m : K × V},
    (ms.map Prod.fst).Nodup → m ∈ ms → ms.lookup m.1 = some m.2
  | [], m, _, hm => absurd hm List.not_mem_nil
  | (k, v) :: ms, m, hnd, hm => by
    rw [List.map_cons, List.nodup_cons] at hnd
    rw [List.lookup_cons]
    rcases List.mem_cons.1 hm with rfl | hm
    · simp
    · have hne : m.1 ≠ k := fun h => hnd.1 (h ▸ List.mem_map.2 ⟨m, hm, rfl⟩)
      rw [beq_eq_false_iff_ne.2 hne]
      exact lookup_of_mem hnd.2 hm

/-- A key finds the image of its value among entries with both renamed. -/
theorem lookup_map_entries [BEq K] [LawfulBEq K] [BEq K'] [LawfulBEq K'] {f : K → K'}
    (hf : Function.Injective f) (g : V → V') (k : K) : ∀ ms : List (K × V),
    (ms.map fun m => (f m.1, g m.2)).lookup (f k) = (ms.lookup k).map g
  | [] => rfl
  | (k', v) :: ms => by
    have hbeq : (f k == f k') = (k == k') := by
      rw [Bool.eq_iff_iff, beq_iff_eq, beq_iff_eq, hf.eq_iff]
    rw [List.map_cons, List.lookup_cons, List.lookup_cons, hbeq, lookup_map_entries hf g k ms]
    cases k == k' <;> rfl

/-- So does removing a key. -/
theorem filter_map_entries [DecidableEq K] [DecidableEq K'] {f : K → K'}
    (hf : Function.Injective f) (g : V → V') (k : K) (ms : List (K × V)) :
    ((ms.map fun m => (f m.1, g m.2)).filter fun m => m.1 ≠ f k) =
      (ms.filter fun m => m.1 ≠ k).map fun m => (f m.1, g m.2) := by
  rw [List.filter_map]
  congr 1
  refine List.filter_congr fun m _ => ?_
  simp [hf.eq_iff]

end KeyOrder
