import Mathlib.Data.List.Basic

/-!
# 有界の待ち行列

`concurrent_queue::ConcurrentQueue::bounded(cap)` のモデル。reactor は timer の操作を
これに積み、wheel の lock を取った側がまとめて取り出す。

* `push` は満杯なら値をそのまま返す（`PushError::Full(value)`）。
* `pop` は先頭を取る。空なら `None`。
* `ConcurrentQueue::bounded(0)` は panic するので、容量は正である。

`try_iter().take(limit)` に一つずつ関数を当てる形を `drain` に書く。取り出しは先頭から
`limit` 個か、空になるまでである（`drain_eq`）。
-/

namespace AsyncWinit

/-- `ConcurrentQueue::bounded(capacity)`。中身は先頭から順に並ぶ。 -/
structure BoundedQueue (α : Type) where
  items : List α
  capacity : Nat
  capacity_pos : 0 < capacity
  length_le : items.length ≤ capacity

namespace BoundedQueue

variable {α β : Type}

/-- `ConcurrentQueue::bounded(capacity)`。空の待ち行列。 -/
def bounded (capacity : Nat) (h : 0 < capacity) : BoundedQueue α :=
  ⟨[], capacity, h, Nat.zero_le _⟩

/-- `ConcurrentQueue::push`。満杯なら値を返す。 -/
def push (q : BoundedQueue α) (a : α) : Except α (BoundedQueue α) :=
  if h : q.items.length < q.capacity then
    .ok ⟨q.items ++ [a], q.capacity, q.capacity_pos, by simp; omega⟩
  else .error a

/-- 先頭の `n` 個を捨てる。 -/
def dropFront (q : BoundedQueue α) (n : Nat) : BoundedQueue α :=
  ⟨q.items.drop n, q.capacity, q.capacity_pos, by have := q.length_le; simp; omega⟩

/-- `ConcurrentQueue::pop`。 -/
def pop (q : BoundedQueue α) : Option (α × BoundedQueue α) :=
  q.items.head?.map fun a => (a, q.dropFront 1)

/-- `try_iter().take(limit).for_each(step)`。空になるか `limit` 個取るまで先頭から取り出す。 -/
def drain (step : β → α → β) : Nat → β → BoundedQueue α → β × BoundedQueue α
  | 0, b, q => (b, q)
  | n + 1, b, q =>
    match q.pop with
    | none => (b, q)
    | some (a, q') => drain step n (step b a) q'

/-- 中身を写す。容量は変わらない。 -/
def map (f : α → β) (q : BoundedQueue α) : BoundedQueue β :=
  ⟨q.items.map f, q.capacity, q.capacity_pos, by simpa using q.length_le⟩

@[ext] theorem ext {q q' : BoundedQueue α} (h1 : q.items = q'.items)
    (h2 : q.capacity = q'.capacity) : q = q' := by
  cases q; cases q'; cases h1; cases h2; rfl

@[simp] theorem dropFront_items (q : BoundedQueue α) (n : Nat) :
    (q.dropFront n).items = q.items.drop n := rfl

@[simp] theorem dropFront_capacity (q : BoundedQueue α) (n : Nat) :
    (q.dropFront n).capacity = q.capacity := rfl

@[simp] theorem dropFront_zero (q : BoundedQueue α) : q.dropFront 0 = q := ext (by simp) rfl

theorem dropFront_dropFront (q : BoundedQueue α) (m n : Nat) :
    (q.dropFront m).dropFront n = q.dropFront (m + n) :=
  ext (by simp [List.drop_drop]) rfl

theorem push_eq_ok {q q' : BoundedQueue α} {a : α} :
    q.push a = .ok q' ↔
      q.items.length < q.capacity ∧ q'.items = q.items ++ [a] ∧ q'.capacity = q.capacity := by
  unfold push
  split
  · next h =>
    constructor
    · rintro ⟨⟩; exact ⟨h, rfl, rfl⟩
    · rintro ⟨-, h1, h2⟩
      cases q'
      simp only at h1 h2
      subst h1 h2
      rfl
  · next h => exact ⟨nofun, fun h' => absurd h'.1 h⟩

/-- 空きがあれば積める。 -/
theorem exists_push_eq_ok {q : BoundedQueue α} (h : q.items.length < q.capacity) (a : α) :
    ∃ q', q.push a = .ok q' ∧ q'.items = q.items ++ [a] ∧ q'.capacity = q.capacity :=
  ⟨_, dif_pos h, rfl, rfl⟩

theorem push_eq_error {q : BoundedQueue α} {a b : α} :
    q.push a = .error b ↔ q.items.length = q.capacity ∧ b = a := by
  have := q.length_le
  unfold push
  split
  · exact ⟨nofun, fun h => by omega⟩
  · exact ⟨fun h => by cases h; exact ⟨by omega, rfl⟩, fun ⟨_, h⟩ => h ▸ rfl⟩

theorem pop_eq_some {q q' : BoundedQueue α} {a : α} :
    q.pop = some (a, q') ↔ ∃ rest, q.items = a :: rest ∧ q' = q.dropFront 1 := by
  unfold pop
  cases h : q.items <;> simp [eq_comm]

@[simp] theorem map_items (f : α → β) (q : BoundedQueue α) : (q.map f).items = q.items.map f := rfl

@[simp] theorem map_capacity (f : α → β) (q : BoundedQueue α) : (q.map f).capacity = q.capacity :=
  rfl

theorem map_dropFront (f : α → β) (q : BoundedQueue α) (n : Nat) :
    (q.dropFront n).map f = (q.map f).dropFront n :=
  ext (by simp [List.map_drop]) rfl

theorem push_map_of_ok (f : α → β) {q q' : BoundedQueue α} {a : α} (h : q.push a = .ok q') :
    (q.map f).push (f a) = .ok (q'.map f) := by
  obtain ⟨hlt, hitems, hcap⟩ := push_eq_ok.mp h
  exact push_eq_ok.mpr ⟨by simpa using hlt, by simp [hitems], hcap⟩

theorem push_map_of_error (f : α → β) {q : BoundedQueue α} {a b : α} (h : q.push a = .error b) :
    (q.map f).push (f a) = .error (f b) := by
  obtain ⟨hfull, rfl⟩ := push_eq_error.mp h
  exact push_eq_error.mpr ⟨by simpa using hfull, rfl⟩

/-- **取り出しの仕様。** 先頭の `n` 個（少なければ全部）を順に畳み込み、それを捨てた残りを返す。 -/
theorem drain_eq (step : β → α → β) :
    ∀ (n : Nat) (b : β) (q : BoundedQueue α),
      drain step n b q = ((q.items.take n).foldl step b, q.dropFront n)
  | 0, b, q => by simp [drain, dropFront]
  | n + 1, b, q => by
    cases hq : q.items with
    | nil =>
      have : q.pop = none := by simp [pop, hq]
      rw [drain, this]
      refine Prod.ext (by simp) (BoundedQueue.ext (by simp [hq]) rfl)
    | cons a rest =>
      have : q.pop = some (a, q.dropFront 1) := by simp [pop, hq]
      rw [drain, this]
      dsimp only
      rw [drain_eq step n]
      refine Prod.ext (by simp [hq]) (BoundedQueue.ext ?_ rfl)
      simp [hq]

/-- 容量いっぱいまで取り出せば、中身を全部畳み込んで空になる。 -/
theorem drain_capacity (step : β → α → β) (b : β) (q : BoundedQueue α) :
    drain step q.capacity b q = (q.items.foldl step b, q.dropFront q.items.length) := by
  rw [drain_eq, List.take_of_length_le q.length_le]
  congr 1
  ext1 <;> simp [List.drop_of_length_le q.length_le]

end BoundedQueue

end AsyncWinit
