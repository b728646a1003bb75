import AsyncWinit.Timer.Basic
import Mathlib.Tactic.Positivity
import Mathlib.Tactic.Linarith
import Mathlib.Tactic.Ring

/-!
# interval の法則

`interval_at(start, period)` を poll し続けると、`start`、`start + period`、`start + 2 * period`、…
を順に一つずつ返し、足し算が溢れたところで止まる。止まった後も失敗はせず、`Pending` を返し続ける。

`intervalLaw` はこれを spec の言葉のまま書いたものである。`k` 個返した後の期限は
`start + k * period`（`intervalDeadline`）で、読んだ時刻がそれより後ならそれを返して次へ進み、
そうでなければ `Pending`。期限が範囲を出ていれば、ずっと `Pending`。

`intervalAt_law` は、どの開始時刻、どの周期（0 も `Duration::MAX` も）、どの poll の並びでも、
`Timer::poll_next` の結果がこの法則に一致することを言う。帰納法の不変条件は
「`k` 個返した timer の期限は `intervalDeadline start period k`」である（`pollRun_intervalLaw`）。

`Timer::at(d)` は周期 `Duration::MAX` の interval である。`Instant` の範囲では `d + MAX` は
`d` が最小の `Instant` のときにだけ溢れず、そのときの次の期限は最大の `Instant` になる。
時計がそれより後を読むことはないので、どちらにしても `d` を一度返した後は `Pending` だけになる。
-/

namespace AsyncWinit

namespace Timer

variable {w : Nat} {V : Type}

/-- `k` 個返した後の interval の期限 `start + k * period`。範囲を出たら `None`。 -/
def intervalDeadline (start : Instant) (period : Duration) (k : Nat) : Option Instant :=
  if h : start.nanos + k * period.nanos ≤ Instant.maxNanos then
    some ⟨start.nanos + k * period.nanos,
      by have := start.min_le; have : (0 : Int) ≤ k * period.nanos := by positivity
         omega, h⟩
  else none

/-- spec の言う interval の出力。`k` は返した個数。 -/
def intervalLaw (start : Instant) (period : Duration) : Nat → List ClockReading → List (Poll (Option Instant))
  | _, [] => []
  | k, now :: rest =>
    match intervalDeadline start period k with
    | some d =>
      if d < now.instant then .ready (some d) :: intervalLaw start period (k + 1) rest
      else .pending :: intervalLaw start period k rest
    | none => .pending :: intervalLaw start period k rest

theorem intervalDeadline_zero (start : Instant) (period : Duration) :
    intervalDeadline start period 0 = some start := by
  simp [intervalDeadline, start.le_max]

/-- 期限を一周期進めるのは、次の番号の期限を取ることである。 -/
theorem checkedAdd_intervalDeadline {start d : Instant} {period : Duration} {k : Nat}
    (h : intervalDeadline start period k = some d) :
    d.checkedAdd period = intervalDeadline start period (k + 1) := by
  unfold intervalDeadline at h ⊢
  split at h
  · cases h
    cases hc : Instant.checkedAdd _ period with
    | some u =>
      have hu := Instant.checkedAdd_eq_some.mp hc
      rw [dif_pos (by have := u.le_max; push_cast; simp only at hu; linarith)]
      congr 1
      ext
      simp only at hu
      push_cast
      rw [hu]
      ring
    | none =>
      have hn := Instant.checkedAdd_eq_none.mp hc
      rw [dif_neg (by push_cast; simp only at hn; linarith)]
  · cases h

/-- **一回の poll。** 期限が `intervalDeadline start period k` の timer は、その期限が読んだ時刻より
前なら期限を返して `k + 1` 番の期限に進み、そうでなければ `Pending` を返して期限を変えない。 -/
theorem pollNext_interval (clone : Waker → V) {t : Timer w} {start : Instant} {period : Duration}
    {k : Nat} (hd : t.deadline = intervalDeadline start period k) (hp : t.period = period)
    (r : Reactor w V) (cx : Waker) (now : ClockReading) :
    (∃ d, intervalDeadline start period k = some d ∧ d < now.instant ∧
        (t.pollNext clone r cx now).2.2 = .ready (some d) ∧
        (t.pollNext clone r cx now).1.deadline = intervalDeadline start period (k + 1)) ∨
      ((∀ d, intervalDeadline start period k = some d → ¬ d < now.instant) ∧
        (t.pollNext clone r cx now).2.2 = .pending ∧
        (t.pollNext clone r cx now).1.deadline = intervalDeadline start period k) := by
  rw [pollNext_result, pollNext_deadline, hd, hp]
  generalize hk : intervalDeadline start period k = o
  cases o with
  | none => exact .inr ⟨fun _ h => (by cases h), rfl, rfl⟩
  | some d =>
    by_cases h : d < now.instant
    · exact .inl ⟨d, rfl, h, by simp [h], by simp [h, checkedAdd_intervalDeadline hk]⟩
    · exact .inr ⟨fun d' hd' => Option.some.inj hd' ▸ h, by simp [h], by simp [h]⟩

/-- **poll の並び。** `k` 個返した timer を poll し続けた結果は法則に一致し、
最後の期限は、それまでに返した個数の分だけ進んだ期限である。 -/
theorem pollRun_intervalLaw (clone : Waker → V) (start : Instant) (period : Duration) :
    ∀ (polls : List (Waker × ClockReading)) (t : Timer w) (r : Reactor w V) (k : Nat),
      t.deadline = intervalDeadline start period k → t.period = period →
      (pollRun clone t r polls).2.2 = intervalLaw start period k (polls.map Prod.snd) ∧
        (pollRun clone t r polls).1.deadline =
          intervalDeadline start period (k + (pollRun clone t r polls).2.2.countP Poll.isReady)
  | [], t, r, k, hd, _ => by simp [pollRun, intervalLaw, hd]
  | (cx, now) :: rest, t, r, k, hd, hp => by
    have hp' : (t.pollNext clone r cx now).1.period = period := by simp [hp]
    rcases pollNext_interval clone hd hp r cx now with ⟨d, hk, hlt, hres, hdl⟩ | ⟨hno, hres, hdl⟩
    · obtain ⟨ih1, ih2⟩ := pollRun_intervalLaw clone start period rest _ _ (k + 1) hdl hp'
      simp only [pollRun, List.map_cons, intervalLaw, hk, hlt, ↓reduceIte, hres,
        List.countP_cons, Poll.isReady]
      rw [ih1, ← ih1, ih2]
      exact ⟨rfl, congrArg _ (by omega)⟩
    · obtain ⟨ih1, ih2⟩ := pollRun_intervalLaw clone start period rest _ _ k hdl hp'
      have hlaw : intervalLaw start period k (now :: rest.map Prod.snd) =
          .pending :: intervalLaw start period k (rest.map Prod.snd) := by
        cases hk : intervalDeadline start period k with
        | none => simp [intervalLaw, hk]
        | some d => simp [intervalLaw, hk, hno d hk]
      simp only [pollRun, List.map_cons, hlaw, hres, List.countP_cons, Poll.isReady]
      rw [ih1, ← ih1, ih2]
      exact ⟨rfl, by simp⟩

/-- 法則は `Ready(None)` を出さない。 -/
theorem ready_none_not_mem_intervalLaw (start : Instant) (period : Duration) :
    ∀ (k : Nat) (readings : List ClockReading), Poll.ready none ∉ intervalLaw start period k readings
  | _, [] => by simp [intervalLaw]
  | k, now :: rest => by
    unfold intervalLaw
    split
    · split
      · simpa using ready_none_not_mem_intervalLaw start period (k + 1) rest
      · simpa using ready_none_not_mem_intervalLaw start period k rest
    · simpa using ready_none_not_mem_intervalLaw start period k rest

/-- 期限がどの読んだ時刻より前にもならなければ、もう何も返さない。期限が溢れた後はこれである。 -/
theorem intervalLaw_quiet (start : Instant) (period : Duration) (k : Nat) :
    ∀ readings : List ClockReading,
      (∀ d, intervalDeadline start period k = some d → ∀ now ∈ readings, ¬ d < now.instant) →
      (intervalLaw start period k readings).filter Poll.isReady = []
  | [], _ => rfl
  | now :: rest, h => by
    have ih := intervalLaw_quiet start period k rest fun d hd n hn => h d hd n (.tail _ hn)
    unfold intervalLaw
    split
    · next d hd => simp [h d hd now (.head _), Poll.isReady, ih]
    · simp [Poll.isReady, ih]

/-- `d + Duration::MAX` が溢れないのは `d` が最小の `Instant` のときだけで、和は最大の `Instant` になる。 -/
theorem intervalDeadline_max_one {start d : Instant}
    (h : intervalDeadline start Duration.MAX 1 = some d) : d.nanos = Instant.maxNanos := by
  unfold intervalDeadline at h
  split at h
  · next hle =>
    cases h
    have := start.min_le
    simp only [Duration.MAX_nanos, Nat.cast_one, one_mul] at hle ⊢
    unfold Instant.minNanos Instant.maxNanos Duration.maxNanos at *
    push_cast at *
    omega
  · cases h

/-- `Timer::at(d)` の法則。`d` より後を読んだ最初の poll で `d` を返し、それ以外は `Pending`。 -/
theorem intervalLaw_at (start : Instant) :
    ∀ readings : List ClockReading,
      (intervalLaw start Duration.MAX 0 readings).filter Poll.isReady =
        if ∃ now ∈ readings, start < now.instant then [.ready (some start)] else []
  | [] => rfl
  | now :: rest => by
    unfold intervalLaw
    rw [intervalDeadline_zero]
    by_cases h : start.nanos < now.instant.nanos
    · have hq := intervalLaw_quiet start Duration.MAX 1 rest fun d hd n _ hlt => by
        have := intervalDeadline_max_one hd
        have := n.lt_max
        simp only [Instant.lt_iff] at hlt
        omega
      simp [h, hq, Poll.isReady]
    · simp [h, Poll.isReady, intervalLaw_at start rest]

/-- **interval の法則。** どの開始時刻 `start`、どの周期 `period`、どの poll の並び（waker も
読んだ時刻も任意）でも、`interval_at(start, period)` の `poll_next` の結果は `intervalLaw` に一致する：
`k` 個返した後の poll は、`start + k * period` が読んだ時刻より前ならそれを返し、そうでなければ
`Pending`。期限はそのたびに `start + (k + 1) * period` に進み、溢れたら以後は `Pending` だけになる。
`Ready(None)` は返さない。`Timer::at(start)` は `start` より後を読んだ最初の poll でだけ `start` を返す。 -/
theorem intervalAt_law (clone : Waker → V) (r : Reactor w V) (start : Instant) (period : Duration)
    (polls : List (Waker × ClockReading)) :
    (pollRun clone (intervalAt start period) r polls).2.2 =
        intervalLaw start period 0 (polls.map Prod.snd) ∧
      (pollRun clone (intervalAt start period) r polls).1.deadline =
        intervalDeadline start period
          ((pollRun clone (intervalAt start period) r polls).2.2.countP Poll.isReady) ∧
      Poll.ready none ∉ (pollRun clone (intervalAt start period) r polls).2.2 ∧
      (pollRun clone («at» start) r polls).2.2.filter Poll.isReady =
        if ∃ p ∈ polls, start < p.2.instant then [.ready (some start)] else [] := by
  have hrun := fun period => pollRun_intervalLaw clone start period polls (intervalAt start period)
    r 0 (intervalDeadline_zero start period).symm rfl
  obtain ⟨hout, hdl⟩ := hrun period
  refine ⟨hout, by simpa using hdl, hout ▸ ready_none_not_mem_intervalLaw start period 0 _, ?_⟩
  rw [«at», (hrun Duration.MAX).1, intervalLaw_at]
  refine if_congr ⟨?_, ?_⟩ rfl rfl
  · rintro ⟨_, hm, h⟩
    obtain ⟨p, hp, rfl⟩ := List.mem_map.mp hm
    exact ⟨p, hp, h⟩
  · rintro ⟨p, hp, h⟩
    exact ⟨p.2, List.mem_map_of_mem _ hp, h⟩

end Timer

end AsyncWinit
