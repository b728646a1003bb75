import AsyncWinit.Time
import AsyncWinit.Wheel.SortedMap
import AsyncWinit.Reactor.Queue
import Mathlib.Data.Prod.Lex

/-!
# timer の操作と wheel

wheel は `BTreeMap<(Instant, usize), Waker>`、待ち行列に積むのは `TimerOp` である。
`process_timer_ops` は待ち行列を容量ぶんまで取り出し、一つずつ wheel に当てる。

値の型 `V` は `Waker` に限らない。reactor のどの操作も値を覗かないので、値に印を付けた
wheel（誰が入れたか、何番目の登録か）を同じ関数で動かせる。後の章はこれを使う。

## 抽象の map

`applyPlain` は同じ操作を素の関数 `TimerKey w → Option V` に当てる。
wheel の `get?` はそれと一致する（`get?_applyOps`）。
-/

namespace AsyncWinit

/-- wheel の鍵 `(deadline, id)`。`id` は `usize`、`w` はその bit 幅。 -/
structure TimerKey (w : Nat) where
  deadline : Instant
  id : BitVec w

namespace TimerKey

variable {w : Nat}

/-- 比較に使う組。 -/
def toLexPair (k : TimerKey w) : Instant ×ₗ Nat := toLex (k.deadline, k.id.toNat)

theorem toLexPair_injective : Function.Injective (toLexPair (w := w)) := by
  rintro ⟨d, i⟩ ⟨d', i'⟩ h
  simp only [toLexPair, toLex_inj, Prod.mk.injEq] at h
  rw [h.1, BitVec.eq_of_toNat_eq h.2]

/-- `(Instant, usize)` の辞書式の順序。 -/
instance : LinearOrder (TimerKey w) := LinearOrder.lift' toLexPair toLexPair_injective

theorem lt_iff (a b : TimerKey w) :
    a < b ↔ a.deadline < b.deadline ∨ a.deadline = b.deadline ∧ a.id.toNat < b.id.toNat :=
  Prod.Lex.lt_iff _ _

theorem le_iff (a b : TimerKey w) :
    a ≤ b ↔ a.deadline < b.deadline ∨ a.deadline = b.deadline ∧ a.id.toNat ≤ b.id.toNat :=
  Prod.Lex.le_iff _ _

theorem ext_iff' {a b : TimerKey w} : a = b ↔ a.deadline = b.deadline ∧ a.id = b.id := by
  cases a; cases b; simp

/-- 鍵の期限は順序を保つ。 -/
theorem deadline_le_of_le {a b : TimerKey w} (h : a ≤ b) : a.deadline ≤ b.deadline := by
  rcases (le_iff a b).mp h with h | ⟨h, -⟩
  · exact h.le
  · exact h.le

end TimerKey

/-- timer wheel。 -/
abbrev Wheel (w : Nat) (V : Type) := SortedMap (TimerKey w) V

/-- `enum TimerOp`。 -/
inductive TimerOp (w : Nat) (V : Type) where
  /-- `InsertTimer(deadline, id, waker)`。 -/
  | insertTimer (deadline : Instant) (id : BitVec w) (waker : V)
  /-- `RemoveTimer(deadline, id)`。 -/
  | removeTimer (deadline : Instant) (id : BitVec w)

namespace TimerOp

variable {w : Nat} {V : Type}

/-- 操作の当たる鍵。 -/
def key : TimerOp w V → TimerKey w
  | insertTimer deadline id _ => ⟨deadline, id⟩
  | removeTimer deadline id => ⟨deadline, id⟩

/-- `process_timer_ops` の `for_each` の本体。`RemoveTimer` で取り出した waker は
`catch_unwind` の中で捨てるだけなので、wheel には残らない。 -/
def apply (timers : Wheel w V) : TimerOp w V → Wheel w V
  | insertTimer deadline id waker => timers.insert ⟨deadline, id⟩ waker
  | removeTimer deadline id => (timers.remove ⟨deadline, id⟩).2

/-- 抽象の map に当てる。 -/
def applyPlain (m : TimerKey w → Option V) : TimerOp w V → (TimerKey w → Option V)
  | insertTimer deadline id waker => Function.update m ⟨deadline, id⟩ (some waker)
  | removeTimer deadline id => Function.update m ⟨deadline, id⟩ none

/-- 値を写す。 -/
def map {W : Type} (f : V → W) : TimerOp w V → TimerOp w W
  | insertTimer deadline id waker => insertTimer deadline id (f waker)
  | removeTimer deadline id => removeTimer deadline id

/-- 値を写してから当てても、当ててから写しても同じ。 -/
theorem apply_map {W : Type} (f : V → W) (m : Wheel w V) (op : TimerOp w V) :
    (op.map f).apply (m.mapValues f) = (op.apply m).mapValues f := by
  cases op with
  | insertTimer d id v => exact (SortedMap.mapValues_insert m f _ v).symm
  | removeTimer d id => exact (SortedMap.mapValues_filterKeys m f (· ≠ ⟨d, id⟩)).symm

@[simp] theorem get?_apply (m : Wheel w V) (op : TimerOp w V) :
    (apply m op).get? = applyPlain m.get? op := by
  funext k
  cases op <;> simp [apply, applyPlain, Function.update_apply, eq_comm]

end TimerOp

/-- 操作を先頭から順に当てる。 -/
def applyOps {w : Nat} {V : Type} (ops : List (TimerOp w V)) (timers : Wheel w V) : Wheel w V :=
  ops.foldl TimerOp.apply timers

/-- `Reactor::process_timer_ops`。`limit` は待ち行列の容量である。 -/
def processTimerOps {w : Nat} {V : Type} (timers : Wheel w V) (queue : BoundedQueue (TimerOp w V)) :
    Wheel w V × BoundedQueue (TimerOp w V) :=
  queue.drain TimerOp.apply queue.capacity timers

section

variable {w : Nat} {V : Type}

@[simp] theorem applyOps_nil (timers : Wheel w V) : applyOps [] timers = timers := rfl

@[simp] theorem applyOps_append (ops ops' : List (TimerOp w V)) (timers : Wheel w V) :
    applyOps (ops ++ ops') timers = applyOps ops' (applyOps ops timers) := List.foldl_append ..

@[simp] theorem applyOps_cons (op : TimerOp w V) (ops : List (TimerOp w V)) (timers : Wheel w V) :
    applyOps (op :: ops) timers = applyOps ops (op.apply timers) := rfl

/-- 操作を当てた後の組は、前からの組か、列のどこかの `InsertTimer` が入れた組である。 -/
theorem mem_applyOps {ops : List (TimerOp w V)} {timers : Wheel w V} {e : TimerKey w × V}
    (he : e ∈ (applyOps ops timers).entries) :
    e ∈ timers.entries ∨ TimerOp.insertTimer e.1.deadline e.1.id e.2 ∈ ops := by
  induction ops generalizing timers with
  | nil => exact .inl he
  | cons op ops ih =>
    rcases ih he with he | he
    · cases op with
      | insertTimer d id v =>
        rcases (SortedMap.mem_insert _ _ _ _).mp he with rfl | ⟨-, he⟩
        · exact .inr (.head _)
        · exact .inl he
      | removeTimer d id => exact .inl ((SortedMap.mem_remove _ _ _).mp he).1
    · exact .inr (.tail _ he)

theorem applyOps_map {W : Type} (f : V → W) (ops : List (TimerOp w V)) (timers : Wheel w V) :
    applyOps (ops.map (TimerOp.map f)) (timers.mapValues f) = (applyOps ops timers).mapValues f := by
  induction ops generalizing timers with
  | nil => rfl
  | cons op ops ih => simp only [List.map_cons, applyOps_cons, TimerOp.apply_map, ih]

/-- **wheel は素の map を精密化する。** 操作の列を wheel に当てた結果の意味は、
同じ列を素の map に当てた結果である。 -/
theorem get?_applyOps (ops : List (TimerOp w V)) (timers : Wheel w V) :
    (applyOps ops timers).get? = ops.foldl TimerOp.applyPlain timers.get? := by
  induction ops generalizing timers with
  | nil => rfl
  | cons op ops ih => simp [ih]

/-- `process_timer_ops` は待ち行列を空にし、中身を全部、積まれた順に当てる。
待ち行列の長さは容量を超えないので、`take(limit)` で取り残すことはない。 -/
theorem processTimerOps_eq (timers : Wheel w V) (queue : BoundedQueue (TimerOp w V)) :
    processTimerOps timers queue = (applyOps queue.items timers, queue.dropFront queue.items.length) :=
  BoundedQueue.drain_capacity _ _ _

/-- 値を写した待ち行列と wheel で `process_timer_ops` を呼ぶと、結果も写したものになる。 -/
theorem processTimerOps_map {W : Type} (f : V → W) (timers : Wheel w V)
    (queue : BoundedQueue (TimerOp w V)) :
    processTimerOps (timers.mapValues f) (queue.map (TimerOp.map f)) =
      ((processTimerOps timers queue).1.mapValues f,
        (processTimerOps timers queue).2.map (TimerOp.map f)) := by
  simp only [processTimerOps_eq, BoundedQueue.map_items, List.length_map, applyOps_map,
    BoundedQueue.map_dropFront]

end

end AsyncWinit
