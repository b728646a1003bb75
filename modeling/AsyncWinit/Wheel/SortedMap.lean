import Mathlib.Data.List.Sort
import Mathlib.Data.List.Lemmas

/-!
# `BTreeMap` のモデル

timer wheel は `BTreeMap<(Instant, usize), Waker>` である。reactor が使う操作は
`insert`、`remove`、`split_off`、`is_empty`、`keys().next()`、`into_values()` の六つだけで、
どれも「鍵の昇順に並んだ組の列」の上の操作として書ける。木の形はどの操作の結果にも現れない。

## 表現

鍵について狭義に昇順の列。昇順であることは field に持つので、重複した鍵を持つ map は作れない。
`insert` は一回の走査で、同じ鍵があれば値を置き換える。このため `get?` の補題は
昇順の仮定なしに成り立つ。

## 抽象化

`get?` が map の意味である。`entries` の帰属と `get?` は昇順のもとで一致する（`mem_iff_get?`）。
-/

namespace AsyncWinit

/-- `BTreeMap<K, V>`。鍵の昇順に並んだ組の列。 -/
structure SortedMap (K V : Type) [LinearOrder K] where
  entries : List (K × V)
  sorted : entries.Pairwise (fun a b => a.1 < b.1)

namespace SortedMap

variable {K V W : Type} [LinearOrder K]

/-! ## 列の上の操作 -/

/-- 鍵を引く。 -/
def lookup (k : K) : List (K × V) → Option V
  | [] => none
  | e :: es => if e.1 = k then some e.2 else lookup k es

/-- 昇順を保って入れる。同じ鍵があれば値を置き換える。 -/
def insertEntries (k : K) (v : V) : List (K × V) → List (K × V)
  | [] => [(k, v)]
  | e :: es =>
    if k < e.1 then (k, v) :: e :: es
    else if k = e.1 then (k, v) :: es
    else e :: insertEntries k v es

theorem mem_insertEntries {k : K} {v : V} {a : K × V} :
    ∀ {l : List (K × V)}, a ∈ insertEntries k v l → a = (k, v) ∨ a ∈ l
  | [], h => by simpa [insertEntries] using h
  | e :: es, h => by
    unfold insertEntries at h
    split at h
    · simpa using h
    · split at h
      · simp only [List.mem_cons] at h ⊢
        tauto
      · simp only [List.mem_cons] at h ⊢
        rcases h with h | h
        · exact .inr (.inl h)
        · rcases mem_insertEntries h with h | h <;> tauto

theorem insertEntries_sorted (k : K) (v : V) :
    ∀ {l : List (K × V)}, l.Pairwise (fun a b => a.1 < b.1) →
      (insertEntries k v l).Pairwise (fun a b => a.1 < b.1)
  | [], _ => by simp [insertEntries]
  | e :: es, h => by
    have hes : ∀ a ∈ es, e.1 < a.1 := fun a ha => List.rel_of_pairwise_cons h ha
    unfold insertEntries
    split
    · next hlt =>
      exact h.cons fun a ha => (List.mem_cons.mp ha).elim (fun he => he ▸ hlt)
        (fun hm => hlt.trans (hes a hm))
    · split
      · next heq =>
        exact h.of_cons.cons fun a ha => heq ▸ hes a ha
      · next hlt hne =>
        refine (insertEntries_sorted k v h.of_cons).cons fun a ha => ?_
        rcases mem_insertEntries ha with rfl | ha
        · exact lt_of_le_of_ne (not_lt.mp hlt) (Ne.symm hne)
        · exact hes a ha

theorem lookup_insertEntries (k k' : K) (v : V) :
    ∀ l : List (K × V), lookup k' (insertEntries k v l) = if k = k' then some v else lookup k' l
  | [] => by simp [insertEntries, lookup]
  | e :: es => by
    unfold insertEntries
    split
    · simp [lookup]
    · split
      · next heq => by_cases h : e.1 = k' <;> simp [lookup, heq, h]
      · next hne => by_cases h : e.1 = k' <;> simp_all [lookup, lookup_insertEntries k k' v es]

theorem lookup_filter (p : K → Prop) [DecidablePred p] (k : K) :
    ∀ l : List (K × V), lookup k (l.filter (fun e => p e.1)) = if p k then lookup k l else none
  | [] => by simp [lookup]
  | e :: es => by
    by_cases h1 : p e.1 <;> by_cases h2 : e.1 = k <;>
      simp_all [List.filter_cons, lookup, lookup_filter p k es]

theorem lookup_eq_some_of_mem {k : K} {v : V} :
    ∀ {l : List (K × V)}, l.Pairwise (fun a b => a.1 < b.1) → (k, v) ∈ l → lookup k l = some v
  | e :: es, h, hm => by
    rcases List.mem_cons.mp hm with rfl | hm
    · simp [lookup]
    · have hne : e.1 ≠ k := ne_of_lt (List.rel_of_pairwise_cons h hm)
      simp [lookup, hne, lookup_eq_some_of_mem h.of_cons hm]

theorem mem_of_lookup_eq_some {k : K} {v : V} :
    ∀ {l : List (K × V)}, lookup k l = some v → (k, v) ∈ l
  | e :: es, h => by
    unfold lookup at h
    split at h
    · next he => cases h; exact List.mem_cons.mpr (.inl (Prod.ext he.symm rfl))
    · exact List.mem_cons_of_mem _ (mem_of_lookup_eq_some h)

/-! ## `BTreeMap` の操作 -/

/-- `BTreeMap::new()`。 -/
def empty : SortedMap K V := ⟨[], .nil⟩

/-- 鍵の値。map の意味はこれで決まる。 -/
def get? (m : SortedMap K V) (k : K) : Option V := lookup k m.entries

/-- 鍵が `p` を満たす組だけを残す。 -/
def filterKeys (m : SortedMap K V) (p : K → Prop) [DecidablePred p] : SortedMap K V :=
  ⟨m.entries.filter (fun e => p e.1), m.sorted.filter _⟩

/-- `BTreeMap::insert`。前の値は捨てる。 -/
def insert (m : SortedMap K V) (k : K) (v : V) : SortedMap K V :=
  ⟨insertEntries k v m.entries, insertEntries_sorted k v m.sorted⟩

/-- `BTreeMap::remove`。取り除いた値と残りを返す。 -/
def remove (m : SortedMap K V) (k : K) : Option V × SortedMap K V :=
  (m.get? k, m.filterKeys (· ≠ k))

/-- `BTreeMap::split_off(&k)`。`k` より前は手元に残し、`k` から後ろを返す。順に（残り、返す分）。 -/
def splitOff (m : SortedMap K V) (k : K) : SortedMap K V × SortedMap K V :=
  (m.filterKeys (· < k), m.filterKeys (k ≤ ·))

/-- `BTreeMap::is_empty`。 -/
def isEmpty (m : SortedMap K V) : Bool := m.entries.isEmpty

/-- `keys().next()`。最小の鍵。 -/
def firstKey? (m : SortedMap K V) : Option K := m.entries.head?.map Prod.fst

/-- `into_values()`。鍵の昇順に並んだ値。 -/
def values (m : SortedMap K V) : List V := m.entries.map Prod.snd

/-- 値を写す。鍵と順序は変わらない。 -/
def mapValues (m : SortedMap K V) (f : V → W) : SortedMap K W :=
  ⟨m.entries.map (fun e => (e.1, f e.2)), List.pairwise_map.mpr (m.sorted.imp id)⟩

/-! ## 意味 -/

@[ext] theorem ext {m m' : SortedMap K V} (h : m.entries = m'.entries) : m = m' := by
  cases m; cases m'; cases h; rfl

@[simp] theorem get?_empty (k : K) : (empty : SortedMap K V).get? k = none := rfl

@[simp] theorem empty_entries : (empty : SortedMap K V).entries = [] := rfl

@[simp] theorem get?_insert (m : SortedMap K V) (k k' : K) (v : V) :
    (m.insert k v).get? k' = if k = k' then some v else m.get? k' :=
  lookup_insertEntries k k' v m.entries

@[simp] theorem remove_fst (m : SortedMap K V) (k : K) : (m.remove k).1 = m.get? k := rfl

@[simp] theorem get?_filterKeys (m : SortedMap K V) (p : K → Prop) [DecidablePred p] (k : K) :
    (m.filterKeys p).get? k = if p k then m.get? k else none :=
  lookup_filter p k m.entries

@[simp] theorem get?_remove (m : SortedMap K V) (k k' : K) :
    (m.remove k).2.get? k' = if k = k' then none else m.get? k' := by
  by_cases h : k = k' <;> simp [remove, h, eq_comm]

@[simp] theorem filterKeys_entries (m : SortedMap K V) (p : K → Prop) [DecidablePred p] :
    (m.filterKeys p).entries = m.entries.filter (fun e => p e.1) := rfl

/-- 組が列にあることと、その鍵でその値が引けることは同じである。 -/
theorem mem_iff_get? (m : SortedMap K V) (k : K) (v : V) :
    (k, v) ∈ m.entries ↔ m.get? k = some v :=
  ⟨lookup_eq_some_of_mem m.sorted, mem_of_lookup_eq_some⟩

/-- 鍵が同じ二つの組は同じ組である。 -/
theorem eq_of_mem_of_fst_eq {m : SortedMap K V} {e e' : K × V} (he : e ∈ m.entries)
    (he' : e' ∈ m.entries) (h : e.1 = e'.1) : e = e' := by
  obtain ⟨k, v⟩ := e
  obtain ⟨k', v'⟩ := e'
  cases h
  rw [mem_iff_get?] at he he'
  rw [he] at he'
  cases he'
  rfl

/-- 鍵の小さい組は列の前にある。 -/
theorem pair_sublist {m : SortedMap K V} {a b : K × V} (ha : a ∈ m.entries) (hb : b ∈ m.entries)
    (hlt : a.1 < b.1) : [a, b].Sublist m.entries := by
  suffices ∀ l : List (K × V), l.Pairwise (fun a b => a.1 < b.1) → a ∈ l → b ∈ l → [a, b].Sublist l
    from this _ m.sorted ha hb
  intro l hl ha hb
  induction l with
  | nil => cases ha
  | cons x xs ih =>
    rw [List.pairwise_cons] at hl
    rcases List.mem_cons.mp ha with rfl | ha'
    · rcases List.mem_cons.mp hb with rfl | hb'
      · exact absurd hlt (lt_irrefl _)
      · exact List.Sublist.cons₂ _ (List.singleton_sublist.mpr hb')
    · rcases List.mem_cons.mp hb with rfl | hb'
      · exact absurd (hl.1 a ha') (not_lt.mpr hlt.le)
      · exact List.Sublist.cons _ (ih hl.2 ha' hb')

/-- `insert` の後にある組は、入れた組か、鍵の違う前からの組である。 -/
theorem mem_insert (m : SortedMap K V) (k : K) (v : V) (e : K × V) :
    e ∈ (m.insert k v).entries ↔ e = (k, v) ∨ (e.1 ≠ k ∧ e ∈ m.entries) := by
  obtain ⟨k', v'⟩ := e
  rw [mem_iff_get?, mem_iff_get?, get?_insert]
  by_cases h : k = k' <;> simp [h, eq_comm]

@[simp] theorem mem_filterKeys (m : SortedMap K V) (p : K → Prop) [DecidablePred p] (e : K × V) :
    e ∈ (m.filterKeys p).entries ↔ e ∈ m.entries ∧ p e.1 := by
  simp

@[simp] theorem mem_remove (m : SortedMap K V) (k : K) (e : K × V) :
    e ∈ (m.remove k).2.entries ↔ e ∈ m.entries ∧ e.1 ≠ k :=
  mem_filterKeys m _ e

/-- 最小の鍵は列の先頭の鍵で、どの鍵以下でもある。 -/
theorem firstKey?_eq_some (m : SortedMap K V) (k : K) :
    m.firstKey? = some k ↔ (∃ v, (k, v) ∈ m.entries) ∧ ∀ e ∈ m.entries, k ≤ e.1 := by
  cases hm : m.entries with
  | nil => simp [firstKey?, hm]
  | cons e es =>
    have hsorted := m.sorted
    rw [hm] at hsorted
    have hs : ∀ a ∈ es, e.1 < a.1 := fun a ha => List.rel_of_pairwise_cons hsorted ha
    simp only [firstKey?, hm, List.head?_cons, Option.map_some', Option.some.injEq,
      List.mem_cons, forall_eq_or_imp]
    constructor
    · rintro rfl
      exact ⟨⟨e.2, .inl rfl⟩, le_rfl, fun a ha => (hs a ha).le⟩
    · rintro ⟨⟨v, hv | hv⟩, hle, -⟩
      · rw [← hv]
      · exact le_antisymm (hs _ hv).le hle

theorem firstKey?_eq_none (m : SortedMap K V) : m.firstKey? = none ↔ m.entries = [] := by
  cases hm : m.entries <;> simp [firstKey?, hm]

@[simp] theorem isEmpty_iff (m : SortedMap K V) : m.isEmpty = true ↔ m.entries = [] := by
  simp [isEmpty]

/-! ## 値を写す

`mapValues` は鍵に触らないので、どの操作とも入れ替わる。値に付けた印を消すときに使う。 -/

theorem map_insertEntries (f : V → W) (k : K) (v : V) :
    ∀ l : List (K × V), (insertEntries k v l).map (fun e => (e.1, f e.2)) =
      insertEntries k (f v) (l.map fun e => (e.1, f e.2))
  | [] => rfl
  | e :: es => by
    simp only [insertEntries, List.map_cons]
    split_ifs <;> simp [map_insertEntries f k v es]

@[simp] theorem mapValues_entries (m : SortedMap K V) (f : V → W) :
    (m.mapValues f).entries = m.entries.map fun e => (e.1, f e.2) := rfl

@[simp] theorem mapValues_empty (f : V → W) : (empty : SortedMap K V).mapValues f = empty := rfl

theorem mapValues_insert (m : SortedMap K V) (f : V → W) (k : K) (v : V) :
    (m.insert k v).mapValues f = (m.mapValues f).insert k (f v) :=
  ext (map_insertEntries f k v m.entries)

theorem mapValues_filterKeys (m : SortedMap K V) (f : V → W) (p : K → Prop) [DecidablePred p] :
    (m.filterKeys p).mapValues f = (m.mapValues f).filterKeys p :=
  ext (by simp [List.filter_map, Function.comp_def])

theorem values_mapValues (m : SortedMap K V) (f : V → W) :
    (m.mapValues f).values = m.values.map f := by
  simp [values, Function.comp_def]

theorem firstKey?_mapValues (m : SortedMap K V) (f : V → W) :
    (m.mapValues f).firstKey? = m.firstKey? := by
  cases hm : m.entries <;> simp [firstKey?, hm]

theorem isEmpty_mapValues (m : SortedMap K V) (f : V → W) : (m.mapValues f).isEmpty = m.isEmpty := by
  cases hm : m.entries <;> simp [isEmpty, hm]

/-! ## 値の出入り

`insert` は同じ鍵の前の値を出して新しい値を入れ、`remove` は鍵の値を出し、`split_off` は値を
二つに分ける。どれも値を増やしも減らしもしない（列として並べ替えを除いて等しい）。 -/

/-- 先頭より小さい鍵は、昇順の列のどこにもない。 -/
theorem lookup_eq_none_of_lt {k : K} {e : K × V} {es : List (K × V)} (hk : k < e.1)
    (hes : ∀ a ∈ es, e.1 < a.1) : lookup k es = none := by
  cases h : lookup k es with
  | none => rfl
  | some v => exact absurd (hk.trans (hes _ (mem_of_lookup_eq_some h))) (lt_irrefl _)

theorem insertEntries_values_perm (k : K) (v : V) :
    ∀ {l : List (K × V)}, l.Pairwise (fun a b => a.1 < b.1) →
      (l.map Prod.snd ++ [v]).Perm ((lookup k l).toList ++ (insertEntries k v l).map Prod.snd)
  | [], _ => by simp [lookup, insertEntries]
  | e :: es, h => by
    have hes : ∀ a ∈ es, e.1 < a.1 := fun a ha => List.rel_of_pairwise_cons h ha
    unfold insertEntries
    split
    · next hlt =>
      rw [lookup, if_neg (ne_of_gt hlt), lookup_eq_none_of_lt hlt hes]
      exact List.perm_append_singleton _ _
    · split
      · next heq =>
        rw [lookup, if_pos heq.symm]
        exact (List.perm_append_singleton _ _).cons _
      · next hlt hne =>
        rw [lookup, if_neg (Ne.symm hne)]
        exact ((insertEntries_values_perm k v h.of_cons).cons e.2).trans List.perm_middle.symm

theorem filter_ne_values_perm (k : K) :
    ∀ {l : List (K × V)}, l.Pairwise (fun a b => a.1 < b.1) →
      (l.map Prod.snd).Perm ((lookup k l).toList ++ (l.filter fun e => e.1 ≠ k).map Prod.snd)
  | [], _ => by simp [lookup]
  | e :: es, h => by
    have hes : ∀ a ∈ es, e.1 < a.1 := fun a ha => List.rel_of_pairwise_cons h ha
    by_cases he : e.1 = k
    · have hkeep : es.filter (fun a => a.1 ≠ k) = es :=
        List.filter_eq_self.mpr fun a ha => by simpa [← he] using ne_of_gt (hes a ha)
      rw [lookup, if_pos he, List.filter_cons_of_neg (by simpa using he), hkeep]
      exact List.Perm.refl _
    · rw [lookup, if_neg he, List.filter_cons_of_pos (by simpa using he)]
      exact ((filter_ne_values_perm k h.of_cons).cons e.2).trans List.perm_middle.symm

/-- `insert(k, v)` の後の値は、前の値に `v` を足し、同じ鍵の前の値（あれば）を除いたもの。 -/
theorem values_insert_perm (m : SortedMap K V) (k : K) (v : V) :
    (m.values ++ [v]).Perm ((m.get? k).toList ++ (m.insert k v).values) :=
  insertEntries_values_perm k v m.sorted

/-- `remove(k)` は、取り除いた値（あれば）と残りの値に、前の値を分ける。 -/
theorem values_remove_perm (m : SortedMap K V) (k : K) :
    m.values.Perm ((m.remove k).1.toList ++ (m.remove k).2.values) :=
  filter_ne_values_perm k m.sorted

/-- `split_off(k)` は、前の部分と後ろの部分に値を分ける。 -/
theorem values_splitOff_perm (m : SortedMap K V) (k : K) :
    m.values.Perm ((m.splitOff k).1.values ++ (m.splitOff k).2.values) := by
  have h : (fun e : K × V => decide (k ≤ e.1)) = fun e => !decide (e.1 < k) := by
    funext e
    rw [Bool.eq_iff_iff]
    simp [not_lt]
  simp only [splitOff, values, filterKeys, h, ← List.map_append]
  exact ((List.filter_append_perm _ _).map _).symm

end SortedMap

end AsyncWinit
