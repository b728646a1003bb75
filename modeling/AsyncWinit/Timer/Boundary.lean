import AsyncWinit.Timer.Basic

/-!
# 期限ちょうどの poll

`process_timers` は期限が `now` **以下**の組を起こす（`split_off` の鍵は `(now + 1ns, 0)`）。
`poll_next` は期限が `now` より**前**（`<`）のときだけ発火する。二つの境目は一致しない。

## 失われる wakeup

期限 `d` で登録した timer の組を、時刻 `d` を読んだ `process_timers` が起こす。task は起きて、
同じ waker で timer を poll し直す。そのとき `Instant::now()` もちょうど `d` を読むと、
`d < d` は偽なので発火しない。登録はあり、waker も同じなので、何もせず `Pending` を返す。
wheel の組はもう起こした後で、ない。timer は二度とこの task を起こさない。

* `pollNext_registered` — 登録した waker で、期限がまだ来ていない poll は何も変えない。
* `processTimers_fired` — 期限が `now` 以下の鍵は、`process_timers` の後の wheel にない。
* `pollNext_after_fire` — 二つを合わせると、起こされた直後の期限ちょうどの poll は、
  登録を持ったまま組のない timer を残す。
* `at_deadline_loses_wakeup` — `Reactor::new` と `Timer::at(10ns)` で実際に起こる。
-/

namespace AsyncWinit

namespace Timer

variable {w : Nat} {V : Type}

/-- 期限がまだ来ておらず（`now` より前でない）、登録した waker が今の waker を起こすなら、
`poll_next` は timer も reactor も変えずに `Pending` を返す。 -/
theorem pollNext_registered (clone : Waker → V) {t : Timer w} {d : Instant} {id : BitVec w}
    {cx : Waker} (hd : t.deadline = some d) (hid : t.idAndWaker = some (id, cx))
    (r : Reactor w V) {now : ClockReading} (hnow : ¬ d < now.instant) :
    t.pollNext clone r cx now = (t, r, .pending) := by
  rcases t with ⟨_, _, p⟩
  cases hd
  cases hid
  simp [pollNext, hnow, Waker.willWake]

end Timer

namespace Reactor

variable {w : Nat} {V : Type}

/-- 期限が `now` 以下の鍵は、`process_timers` の後の抽象の wheel にない。 -/
theorem processTimers_fired (r : Reactor w V) {now : ClockReading} {k : TimerKey w}
    (hk : k.deadline ≤ now.instant) : (r.processTimers now).1.abstractWheel.get? k = none := by
  rw [abstractWheel_processTimers, SortedMap.get?_filterKeys, if_neg]
  rw [splitKey_le_iff]
  exact not_lt.mpr hk

end Reactor

namespace Timer

variable {w : Nat} {V : Type}

/-- **起こされた直後の期限ちょうどの poll。** 期限 `d`、登録 `(id, cx)` の timer について、
時刻 `d` を読んだ `process_timers` の後、同じ waker で時刻 `d` に poll し直すと `Pending` が返り、
timer は期限 `d` と登録 `(id, cx)` を持ったままで、抽象の wheel に鍵 `(d, id)` の組はない。 -/
theorem pollNext_after_fire (clone : Waker → V) {t : Timer w} {d : Instant} {id : BitVec w}
    {cx : Waker} (hd : t.deadline = some d) (hid : t.idAndWaker = some (id, cx))
    (r : Reactor w V) {now : ClockReading} (hnow : now.instant = d) :
    let p := t.pollNext clone (r.processTimers now).1 cx now
    p.2.2 = .pending ∧ p.1.deadline = some d ∧ p.1.idAndWaker = some (id, cx) ∧
      p.2.1.abstractWheel.get? ⟨d, id⟩ = none := by
  rw [pollNext_registered clone hd hid _ (by rw [hnow]; exact lt_irrefl d)]
  exact ⟨rfl, hd, hid, Reactor.processTimers_fired r
    (show (⟨d, id⟩ : TimerKey w).deadline ≤ now.instant from hnow.ge)⟩

/-- **失われる wakeup。** `Reactor::new` の上の `Timer::at(10ns)` を task の waker `cx` で時刻 5ns に
poll すると、`Pending` で `(10ns, 1)` に登録する。時刻 10ns の `process_timers` はそれを起こして
`[cx]` を返す。task が同じ waker で時刻 10ns に poll し直すと `Pending` が返り、timer は期限
`Some(10ns)` と登録 `Some((1, cx))` を持つが、抽象の wheel に `(10ns, 1)` の組はなく、
以後のどの `process_timers` も何も返さない。読んだ時刻は 5ns、10ns、10ns で減らない。 -/
theorem at_deadline_loses_wakeup :
    let cx : Waker := ⟨0, 0⟩
    let d : Instant := ⟨10, by decide, by decide⟩
    let early : ClockReading := ⟨⟨5, by decide, by decide⟩, by decide⟩
    let late : ClockReading := ⟨d, by decide⟩
    let first := («at» d : Timer 64).pollNext id (Reactor.new 64 Waker) cx early
    let fire := first.2.1.processTimers late
    let again := first.1.pollNext id fire.1 cx late
    first.2.2 = .pending ∧ fire.2.1 = [cx] ∧
      again.2.2 = .pending ∧ again.1.deadline = some d ∧ again.1.idAndWaker = some (1, cx) ∧
      again.2.1.abstractWheel.get? ⟨d, 1⟩ = none ∧
      ∀ now, (again.2.1.processTimers now).2.1 = [] := by
  intro cx d early late first fire again
  have hfirst : first = (⟨some (1, cx), some d, Duration.MAX⟩,
      ((Reactor.new 64 Waker).insertTimer d cx).1, .pending) := by
    simp [first, pollNext, «at», intervalAt, early, d]
    rfl
  have hwheel : first.2.1.abstractWheel.entries = [(⟨d, 1⟩, cx)] := by
    rw [hfirst, Reactor.abstractWheel_insertTimer, Reactor.abstractWheel_new]
    rfl
  have hlt : (⟨d, 1⟩ : TimerKey 64) < ⟨late.addOneNano, 0⟩ :=
    (Reactor.lt_splitKey_iff late _).mpr le_rfl
  have hfire : fire.1.abstractWheel.entries = [] := by
    rw [Reactor.abstractWheel_processTimers, SortedMap.filterKeys_entries, hwheel,
      List.filter_cons_of_neg (by rw [decide_eq_true_iff]; exact not_le.mpr hlt)]
    rfl
  obtain ⟨hpend, hdl, hid, hget⟩ := pollNext_after_fire id
    (show first.1.deadline = some d by rw [hfirst]) (by rw [hfirst]) first.2.1
    (show late.instant = d from rfl)
  refine ⟨by rw [hfirst], ?_, hpend, hdl, hid, hget, fun now => ?_⟩
  · rw [Reactor.processTimers_out, SortedMap.values, SortedMap.filterKeys_entries, hwheel,
      List.filter_cons_of_pos (by exact decide_eq_true hlt)]
    rfl
  · have hagain : again = (first.1, fire.1, .pending) :=
      pollNext_registered id (by rw [hfirst]) (by rw [hfirst]) _ (lt_irrefl d)
    rw [hagain, Reactor.processTimers_out, SortedMap.values, SortedMap.filterKeys_entries, hfire]
    rfl

end Timer

end AsyncWinit
