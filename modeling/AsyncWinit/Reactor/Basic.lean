import AsyncWinit.Reactor.TimerOp

/-!
# reactor の timer

`Reactor` のうち timer と終了の状態、そして一つの thread から呼んだときの
`insert_timer`、`remove_timer`、`process_timers`。

## 模型にしないもの

`evl_ops`、`windows`、`proxy`、`evl_registration` はここで扱う関数のどれも読まない。
`notify` は loop を起こすだけで、reactor の状態を変えない。

## 抽象の wheel

待ち行列に残っている操作を wheel に先頭から当てたものを `abstractWheel` と呼ぶ。
`insert_timer` と `remove_timer` は抽象の wheel に操作を一つ当て（`abstractWheel_insertTimer`、
`abstractWheel_removeTimer`）、`process_timers` は抽象の wheel を `now` で二つに分ける
（`processTimers_spec`）。待ち行列が満杯のときの取り出しと再試行は、抽象の wheel を変えない。
-/

namespace AsyncWinit

/-- `Reactor` のうち、timer と終了に関わる field。`w` は `usize` の bit 幅、`V` は wheel の値。 -/
structure Reactor (w : Nat) (V : Type) where
  /-- `exit_code: AtomicI64`。 -/
  exitCode : BitVec 64
  /-- `timers: Mutex<BTreeMap<(Instant, usize), Waker>>`。 -/
  timers : Wheel w V
  /-- `timer_op_queue: ConcurrentQueue<TimerOp>`。 -/
  timerOpQueue : BoundedQueue (TimerOp w V)
  /-- `timer_id: AtomicUsize`。次に配る id。 -/
  timerId : BitVec w

namespace Reactor

variable {w : Nat} {V : Type}

/-- `Reactor::new`。待ち行列の容量は 1024、最初の id は 1。 -/
def new (w : Nat) (V : Type) : Reactor w V where
  exitCode := 0
  timers := .empty
  timerOpQueue := .bounded 1024 (by decide)
  timerId := 1

/-- 待ち行列の操作を当てた後の wheel。 -/
def abstractWheel (r : Reactor w V) : Wheel w V := applyOps r.timerOpQueue.items r.timers

@[simp] theorem abstractWheel_new : (new w V).abstractWheel = .empty := rfl

/-- `self.timers.lock()` を取って `process_timer_ops` を呼んだ後の状態。 -/
def drainQueue (r : Reactor w V) : Reactor w V :=
  { r with timers := (processTimerOps r.timers r.timerOpQueue).1,
           timerOpQueue := (processTimerOps r.timers r.timerOpQueue).2 }

/-- 取り出した後の待ち行列は空である。 -/
@[simp] theorem drainQueue_items (r : Reactor w V) : r.drainQueue.timerOpQueue.items = [] := by
  simp [drainQueue, processTimerOps_eq]

/-- `while let Err(e) = self.timer_op_queue.push(op)` の繰り返し。満杯なら lock を取って
`process_timer_ops` で取り出し、同じ操作を積み直す。一つの thread では取り出すと空になるので、
待ち行列は短くなる。 -/
def pushOp (r : Reactor w V) (op : TimerOp w V) : Reactor w V :=
  match _hpush : r.timerOpQueue.push op with
  | .ok queue => { r with timerOpQueue := queue }
  | .error op' => pushOp r.drainQueue op'
termination_by r.timerOpQueue.items.length
decreasing_by
  have hfull := (BoundedQueue.push_eq_error.mp _hpush).1
  have := r.timerOpQueue.capacity_pos
  rw [drainQueue_items, List.length_nil]
  omega

/-- `Reactor::insert_timer`。`fetch_add(1)` は `usize` で回る。 -/
def insertTimer (r : Reactor w V) (deadline : Instant) (waker : V) : Reactor w V × BitVec w :=
  let id := r.timerId
  ({ r with timerId := r.timerId + 1 }.pushOp (.insertTimer deadline id waker), id)

/-- `Reactor::remove_timer`。 -/
def removeTimer (r : Reactor w V) (deadline : Instant) (id : BitVec w) : Reactor w V :=
  r.pushOp (.removeTimer deadline id)

/-- `Reactor::process_timers`。`wakers` に足す値の列と、次に起きる時刻を返す。
`split_off` の鍵は `(now + 1ns, 0)`、その前が `ready`、後ろが `pending` である。 -/
def processTimers (r : Reactor w V) (now : ClockReading) :
    Reactor w V × List V × Option Instant :=
  let drained := processTimerOps r.timers r.timerOpQueue
  let split := drained.1.splitOff ⟨now.addOneNano, 0⟩
  let deadline := if split.1.isEmpty then split.2.firstKey?.map (·.deadline) else some now.instant
  ({ r with timers := split.2, timerOpQueue := drained.2 }, split.1.values, deadline)

/-! ## 積み直し -/

theorem pushOp_of_ok {r : Reactor w V} {op : TimerOp w V} {q : BoundedQueue (TimerOp w V)}
    (h : r.timerOpQueue.push op = .ok q) : r.pushOp op = { r with timerOpQueue := q } := by
  rw [pushOp]
  split
  · next h' => rw [h] at h'; cases h'; rfl
  · next h' => rw [h] at h'; cases h'

theorem pushOp_of_error {r : Reactor w V} {op op' : TimerOp w V}
    (h : r.timerOpQueue.push op = .error op') :
    r.pushOp op = r.drainQueue.pushOp op := by
  obtain ⟨-, rfl⟩ := BoundedQueue.push_eq_error.mp h
  rw [pushOp]
  split
  · next h' => rw [h] at h'; cases h'
  · next h' => rw [h] at h'; cases h'; rfl

/-- 積み直しの二つの道。空きがあればそのまま積み、満杯なら取り出してから空の待ち行列に積む。 -/
theorem pushOp_cases (r : Reactor w V) (op : TimerOp w V) :
    (∃ q : BoundedQueue (TimerOp w V), q.items = r.timerOpQueue.items ++ [op] ∧
        r.pushOp op = { r with timerOpQueue := q }) ∨
      ∃ q : BoundedQueue (TimerOp w V), q.items = [op] ∧
        r.pushOp op = { r.drainQueue with timerOpQueue := q } := by
  cases hp : r.timerOpQueue.push op with
  | ok q => exact .inl ⟨q, (BoundedQueue.push_eq_ok.mp hp).2.1, pushOp_of_ok hp⟩
  | error op' =>
    have hempty := r.drainQueue_items
    have hcap : 0 < r.drainQueue.timerOpQueue.capacity := r.drainQueue.timerOpQueue.capacity_pos
    match hq : r.drainQueue.timerOpQueue.push op with
    | .ok q =>
      refine .inr ⟨q, ?_, by rw [pushOp_of_error hp, pushOp_of_ok hq]⟩
      rw [(BoundedQueue.push_eq_ok.mp hq).2.1, hempty, List.nil_append]
    | .error _ =>
      have := (BoundedQueue.push_eq_error.mp hq).1
      rw [hempty, List.length_nil] at this
      omega

/-- **積み直しの仕様。** 抽象の wheel に操作を一つ当て、id と終了の状態には触らない。 -/
theorem pushOp_spec (r : Reactor w V) (op : TimerOp w V) :
    (r.pushOp op).abstractWheel = op.apply r.abstractWheel ∧
      (r.pushOp op).timerId = r.timerId ∧ (r.pushOp op).exitCode = r.exitCode := by
  rcases pushOp_cases r op with ⟨q, hq, h⟩ | ⟨q, hq, h⟩ <;>
    simp [h, abstractWheel, hq, drainQueue, processTimerOps_eq]

@[simp] theorem abstractWheel_pushOp (r : Reactor w V) (op : TimerOp w V) :
    (r.pushOp op).abstractWheel = op.apply r.abstractWheel := (pushOp_spec r op).1

@[simp] theorem timerId_pushOp (r : Reactor w V) (op : TimerOp w V) :
    (r.pushOp op).timerId = r.timerId := (pushOp_spec r op).2.1

@[simp] theorem exitCode_pushOp (r : Reactor w V) (op : TimerOp w V) :
    (r.pushOp op).exitCode = r.exitCode := (pushOp_spec r op).2.2

/-! ## `insert_timer` と `remove_timer` -/

@[simp] theorem insertTimer_id (r : Reactor w V) (deadline : Instant) (waker : V) :
    (r.insertTimer deadline waker).2 = r.timerId := rfl

@[simp] theorem timerId_insertTimer (r : Reactor w V) (deadline : Instant) (waker : V) :
    (r.insertTimer deadline waker).1.timerId = r.timerId + 1 := by
  simp [insertTimer]

/-- `insert_timer` は抽象の wheel の `(deadline, id)` に値を入れる。`id` は呼ぶ前の `timer_id`。 -/
@[simp] theorem abstractWheel_insertTimer (r : Reactor w V) (deadline : Instant) (waker : V) :
    (r.insertTimer deadline waker).1.abstractWheel =
      r.abstractWheel.insert ⟨deadline, r.timerId⟩ waker := by
  simp only [insertTimer, abstractWheel_pushOp]
  rfl

@[simp] theorem exitCode_insertTimer (r : Reactor w V) (deadline : Instant) (waker : V) :
    (r.insertTimer deadline waker).1.exitCode = r.exitCode := by
  simp [insertTimer]

/-- `remove_timer` は抽象の wheel から `(deadline, id)` を取り除く。 -/
@[simp] theorem abstractWheel_removeTimer (r : Reactor w V) (deadline : Instant) (id : BitVec w) :
    (r.removeTimer deadline id).abstractWheel = (r.abstractWheel.remove ⟨deadline, id⟩).2 := by
  simp only [removeTimer, abstractWheel_pushOp]
  rfl

@[simp] theorem timerId_removeTimer (r : Reactor w V) (deadline : Instant) (id : BitVec w) :
    (r.removeTimer deadline id).timerId = r.timerId := by
  simp [removeTimer]

@[simp] theorem exitCode_removeTimer (r : Reactor w V) (deadline : Instant) (id : BitVec w) :
    (r.removeTimer deadline id).exitCode = r.exitCode := by
  simp [removeTimer]

/-! ## `process_timers` -/

/-- `process_timers` が抽象の wheel `M` と時刻 `now` について満たすこと。
`r'` は呼んだ後の reactor、`out` は `wakers` に足した値、`ret` は返した時刻。 -/
structure FiresDue (M : Wheel w V) (now : ClockReading) (r' : Reactor w V) (out : List V)
    (ret : Option Instant) : Prop where
  /-- 足すのは期限が `now` 以下の組の値だけで、鍵の昇順に一度ずつ。 -/
  out_eq : out = (M.entries.filter (fun e => e.1.deadline ≤ now.instant)).map Prod.snd
  /-- wheel に残るのは期限が `now` より後の組だけ。 -/
  timers_eq : r'.timers.entries = M.entries.filter (fun e => now.instant < e.1.deadline)
  /-- 待ち行列は空になる。 -/
  queue_empty : r'.timerOpQueue.items = []
  /-- 一つでも起こしたなら `now` を返す。 -/
  ret_fired : out ≠ [] → ret = some now.instant
  /-- 起こさず wheel も空なら `None`。 -/
  ret_none : out = [] → (ret = none ↔ r'.timers.entries = [])
  /-- 起こさなければ、残った組の期限の最小を返す。 -/
  ret_least : out = [] → ∀ d, ret = some d ↔
    (∃ e ∈ r'.timers.entries, e.1.deadline = d) ∧ ∀ e ∈ r'.timers.entries, d ≤ e.1.deadline
  /-- 返す時刻は `now` より前にならない。 -/
  now_le : ∀ d, ret = some d → now.instant ≤ d

/-- `(now + 1ns, 0)` より前の鍵とは、期限が `now` 以下の鍵である。`id` は 0 以上なので、
期限がちょうど `now + 1ns` の組は `id` が 0 でも後ろに入る。 -/
theorem lt_splitKey_iff (now : ClockReading) (k : TimerKey w) :
    k < ⟨now.addOneNano, 0⟩ ↔ k.deadline ≤ now.instant := by
  rw [TimerKey.lt_iff]
  simp only [Instant.lt_iff, Instant.le_iff, ClockReading.addOneNano_nanos, BitVec.ofNat_eq_ofNat,
    BitVec.toNat_ofNat, Nat.zero_mod, Nat.not_lt_zero, and_false, or_false]
  omega

theorem splitKey_le_iff (now : ClockReading) (k : TimerKey w) :
    ⟨now.addOneNano, 0⟩ ≤ k ↔ now.instant < k.deadline := by
  rw [← not_lt, lt_splitKey_iff, not_le]

theorem processTimers_timers (r : Reactor w V) (now : ClockReading) :
    (r.processTimers now).1.timers = r.abstractWheel.filterKeys (⟨now.addOneNano, 0⟩ ≤ ·) := by
  simp only [processTimers, processTimerOps_eq, SortedMap.splitOff, abstractWheel]

theorem processTimers_out (r : Reactor w V) (now : ClockReading) :
    (r.processTimers now).2.1 = (r.abstractWheel.filterKeys (· < ⟨now.addOneNano, 0⟩)).values := by
  simp only [processTimers, processTimerOps_eq, SortedMap.splitOff, abstractWheel]

theorem processTimers_ret (r : Reactor w V) (now : ClockReading) :
    (r.processTimers now).2.2 = if (r.processTimers now).2.1.isEmpty then
      (r.processTimers now).1.timers.firstKey?.map (·.deadline) else some now.instant := by
  have hmap : ∀ l : List (TimerKey w × V), (l.map Prod.snd).isEmpty = l.isEmpty := fun l => by
    cases l <;> rfl
  simp only [processTimers, SortedMap.values, SortedMap.isEmpty, hmap]

/-- `process_timers` の後の抽象の wheel は、期限が `now` より後の組だけである。 -/
theorem abstractWheel_processTimers (r : Reactor w V) (now : ClockReading) :
    (r.processTimers now).1.abstractWheel = r.abstractWheel.filterKeys (⟨now.addOneNano, 0⟩ ≤ ·) := by
  rw [← processTimers_timers]
  simp [abstractWheel, processTimers, processTimerOps_eq]

/-- `process_timers` が足す値は、呼んだときの抽象の wheel の値である。 -/
theorem mem_processTimers_out {r : Reactor w V} {now : ClockReading} {v : V}
    (h : v ∈ (r.processTimers now).2.1) : ∃ k, (k, v) ∈ r.abstractWheel.entries := by
  rw [processTimers_out, SortedMap.values, List.mem_map] at h
  obtain ⟨e, he, rfl⟩ := h
  exact ⟨e.1, (SortedMap.mem_filterKeys _ _ e |>.mp he).1⟩

/-- **`process_timers` は抽象の wheel を `now` で分ける。** 待ち行列の操作を全部当ててから、
期限が `now` 以下の組の値を鍵の昇順に返し、残りを wheel に残す。返す時刻は、起こしたなら `now`、
そうでなければ残った期限の最小（なければ `None`）で、`now` より前にはならない。 -/
theorem processTimers_spec (r : Reactor w V) (now : ClockReading) :
    FiresDue r.abstractWheel now (r.processTimers now).1 (r.processTimers now).2.1
      (r.processTimers now).2.2 := by
  have hout : (r.processTimers now).2.1 =
      (r.abstractWheel.entries.filter (fun e => e.1.deadline ≤ now.instant)).map Prod.snd := by
    rw [processTimers_out, SortedMap.values, SortedMap.filterKeys_entries]
    exact congrArg _ (List.filter_congr fun e _ => decide_eq_decide.mpr (lt_splitKey_iff now e.1))
  have htimers : (r.processTimers now).1.timers.entries =
      r.abstractWheel.entries.filter (fun e => now.instant < e.1.deadline) := by
    rw [processTimers_timers, SortedMap.filterKeys_entries]
    exact List.filter_congr fun e _ => decide_eq_decide.mpr (splitKey_le_iff now e.1)
  have hlater : ∀ e ∈ (r.processTimers now).1.timers.entries, now.instant < e.1.deadline :=
    fun e he => by
      rw [htimers, List.mem_filter] at he
      exact of_decide_eq_true he.2
  have hret := processTimers_ret r now
  set out := (r.processTimers now).2.1
  set r' := (r.processTimers now).1
  set ret := (r.processTimers now).2.2
  have hquiet : out = [] → ret = r'.timers.firstKey?.map (·.deadline) := fun h => by
    simp [hret, h]
  refine ⟨hout, htimers, ?_, fun h => by simp [hret, h], ?_, ?_, ?_⟩
  · simp [r', processTimers, processTimerOps_eq]
  · intro h
    rw [hquiet h, Option.map_eq_none', SortedMap.firstKey?_eq_none]
  · intro h d
    rw [hquiet h, Option.map_eq_some']
    constructor
    · rintro ⟨k, hk, rfl⟩
      obtain ⟨⟨v, hv⟩, hle⟩ := (SortedMap.firstKey?_eq_some _ k).mp hk
      exact ⟨⟨(k, v), hv, rfl⟩, fun e he => TimerKey.deadline_le_of_le (hle e he)⟩
    · rintro ⟨⟨e, he, rfl⟩, hmin⟩
      cases hk : r'.timers.firstKey? with
      | none =>
        have := (SortedMap.firstKey?_eq_none _).mp hk
        rw [this] at he
        cases he
      | some k =>
        obtain ⟨⟨v, hv⟩, hle⟩ := (SortedMap.firstKey?_eq_some _ k).mp hk
        exact ⟨k, rfl, le_antisymm (TimerKey.deadline_le_of_le (hle e he)) (hmin _ hv)⟩
  · intro d hd
    by_cases h : out = []
    · rw [hquiet h, Option.map_eq_some'] at hd
      obtain ⟨k, hk, rfl⟩ := hd
      obtain ⟨⟨v, hv⟩, -⟩ := (SortedMap.firstKey?_eq_some _ k).mp hk
      exact (hlater _ hv).le
    · simp [hret, h] at hd
      exact hd ▸ le_rfl

end Reactor

end AsyncWinit
