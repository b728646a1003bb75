import AsyncWinit.Reactor.Basic

/-!
# `Timer`

`Timer` は future であり stream でもある。状態は三つの field だけで、wheel の登録は
reactor の `insert_timer` / `remove_timer` を通す。

* `deadline` — 次に発火する時刻。`None` なら二度と発火しない。
* `period` — 発火のたびに `deadline` に足す長さ。一度きりの timer は `Duration::MAX`。
* `id_and_waker` — 登録した wheel の id と、そのとき poll した waker。

## `poll_next`

期限が `Instant::now()` より**前**（`<`）なら発火する。登録を外し、期限を一周期進めて登録し直す
（溢れたら `deadline` を `None` にする）。そうでなければ、未登録なら登録し、
登録した waker が今の waker を起こさないなら登録し直す。

## waker と wheel の値

`Waker::will_wake` は data と vtable の一致を見る。`Waker` は起こす task と、同じ task を起こす
waker を区別する番号の組で表し、`will_wake` はその一致とする。一致すれば同じ task を起こす。

`insert_timer` は `waker.clone()` を wheel に入れる。wheel の値の型 `V` を一般にしておくため、
その clone を引数 `clone : Waker → V` に取る。コードそのものは `V = Waker`、`clone = id` である。
-/

namespace AsyncWinit

/-- `std::task::Waker`。`task` は起こす task。 -/
structure Waker where
  task : Nat
  handle : Nat
  deriving DecidableEq

/-- `Waker::will_wake`。 -/
def Waker.willWake (a b : Waker) : Bool := a == b

/-- 同じ waker と判定されれば、同じ task を起こす。 -/
theorem Waker.task_eq_of_willWake {a b : Waker} (h : a.willWake b = true) : a.task = b.task := by
  simp only [willWake, beq_iff_eq] at h
  rw [h]

/-- `std::task::Poll`。 -/
inductive Poll (α : Type) where
  | ready (a : α)
  | pending
  deriving DecidableEq

/-- 値を返したか。 -/
def Poll.isReady {α : Type} : Poll α → Bool
  | .ready _ => true
  | .pending => false

/-- `struct Timer`。`reactor: &'static Reactor` は外から渡す。 -/
structure Timer (w : Nat) where
  idAndWaker : Option (BitVec w × Waker)
  deadline : Option Instant
  period : Duration

namespace Timer

variable {w : Nat} {V : Type}

/-- `Timer::never`。 -/
def never : Timer w := ⟨none, none, Duration.MAX⟩

/-- `Timer::interval_at`。 -/
def intervalAt (start : Instant) (period : Duration) : Timer w := ⟨none, some start, period⟩

/-- `Timer::at`。 -/
def «at» (deadline : Instant) : Timer w := intervalAt deadline Duration.MAX

/-- `Timer::after`。`now` は `Instant::now()`。溢れたら `never`。 -/
def after (now : ClockReading) (duration : Duration) : Timer w :=
  (now.instant.checkedAdd duration).elim never «at»

/-- `Timer::interval`。最初の発火は `now + period`。溢れたら `never`。 -/
def interval (now : ClockReading) (period : Duration) : Timer w :=
  (now.instant.checkedAdd period).elim never fun deadline => intervalAt deadline period

/-- `Timer::clear`（`Drop`）。`deadline` と `id_and_waker` を両方取り出し、
両方あったときだけ wheel から外す。 -/
def clear (t : Timer w) (r : Reactor w V) : Timer w × Reactor w V :=
  let t' := { t with deadline := none, idAndWaker := none }
  match t.deadline, t.idAndWaker with
  | some deadline, some (id, _) => (t', r.removeTimer deadline id)
  | _, _ => (t', r)

/-- `Stream::poll_next`。`cx` は `cx.waker()`、`now` は `Instant::now()`。 -/
def pollNext (clone : Waker → V) (t : Timer w) (r : Reactor w V) (cx : Waker) (now : ClockReading) :
    Timer w × Reactor w V × Poll (Option Instant) :=
  match t.deadline with
  | none => (t, r, .pending)
  | some deadline =>
    if deadline < now.instant then
      let r := match t.idAndWaker with
        | some (id, _) => r.removeTimer deadline id
        | none => r
      match deadline.checkedAdd t.period with
      | some next =>
        let reg := r.insertTimer next (clone cx)
        ({ t with deadline := some next, idAndWaker := some (reg.2, cx) }, reg.1,
          .ready (some deadline))
      | none => ({ t with deadline := none, idAndWaker := none }, r, .ready (some deadline))
    else
      match t.idAndWaker with
      | none =>
        let reg := r.insertTimer deadline (clone cx)
        ({ t with idAndWaker := some (reg.2, cx) }, reg.1, .pending)
      | some (id, w) =>
        if !w.willWake cx then
          let reg := (r.removeTimer deadline id).insertTimer deadline (clone cx)
          ({ t with idAndWaker := some (reg.2, cx) }, reg.1, .pending)
        else (t, r, .pending)

/-- `Future::poll`。`poll_next(cx).map(|x| x.unwrap())`。`unwrap` の panic は `none`。 -/
def poll (clone : Waker → V) (t : Timer w) (r : Reactor w V) (cx : Waker) (now : ClockReading) :
    Option (Timer w × Reactor w V × Poll Instant) :=
  let s := t.pollNext clone r cx now
  match s.2.2 with
  | .ready (some x) => some (s.1, s.2.1, .ready x)
  | .ready none => none
  | .pending => some (s.1, s.2.1, .pending)

/-- 一つの task が同じ timer を何度も poll する。各回の waker と読んだ時刻を順に与え、
最後の状態と各回の結果を返す。 -/
def pollRun (clone : Waker → V) :
    Timer w → Reactor w V → List (Waker × ClockReading) →
      Timer w × Reactor w V × List (Poll (Option Instant))
  | t, r, [] => (t, r, [])
  | t, r, (cx, now) :: rest =>
    let s := t.pollNext clone r cx now
    let run := pollRun clone s.1 s.2.1 rest
    (run.1, run.2.1, s.2.2 :: run.2.2)

/-! ## 結果と期限 -/

/-- **`poll_next` の結果。** 期限があってそれが `now` より前なら、その期限を返す。
それ以外は `Pending`。`Ready(None)` は返さない。 -/
theorem pollNext_result (clone : Waker → V) (t : Timer w) (r : Reactor w V) (cx : Waker)
    (now : ClockReading) :
    (t.pollNext clone r cx now).2.2 = match t.deadline with
      | some d => if d < now.instant then .ready (some d) else .pending
      | none => .pending := by
  rcases t with ⟨_ | ⟨id, w⟩, _ | d, p⟩ <;> simp only [pollNext]
  all_goals split_ifs <;> (try split) <;> rfl

/-- `poll_next` の後の期限。発火したら一周期進め、溢れたら `None`。 -/
theorem pollNext_deadline (clone : Waker → V) (t : Timer w) (r : Reactor w V) (cx : Waker)
    (now : ClockReading) :
    (t.pollNext clone r cx now).1.deadline = match t.deadline with
      | some d => if d < now.instant then d.checkedAdd t.period else some d
      | none => none := by
  rcases t with ⟨_ | ⟨id, w⟩, _ | d, p⟩ <;> simp only [pollNext]
  all_goals split_ifs <;> (try split) <;> simp_all

@[simp] theorem pollNext_period (clone : Waker → V) (t : Timer w) (r : Reactor w V) (cx : Waker)
    (now : ClockReading) : (t.pollNext clone r cx now).1.period = t.period := by
  rcases t with ⟨_ | ⟨id, w⟩, _ | d, p⟩ <;> simp only [pollNext]
  all_goals split_ifs <;> (try split) <;> rfl

/-- `Future::poll` は `unwrap` で panic しない。 -/
theorem poll_isSome (clone : Waker → V) (t : Timer w) (r : Reactor w V) (cx : Waker)
    (now : ClockReading) : (t.poll clone r cx now).isSome := by
  simp only [poll, pollNext_result]
  cases t.deadline with
  | none => rfl
  | some d => by_cases h : d < now.instant <;> simp [h]

end Timer

end AsyncWinit
