import AsyncWinit.Timer.System
import AsyncWinit.Reactor.Run

/-!
# 印を消すと、コードそのものになる

`Timer/System.lean` の系は、wheel の値に持ち主の番号を印として付けている。コードの wheel の値は
`Waker` だけで、`insert_timer` に渡すのは `cx.waker().clone()` である。印は幽霊で、どの分岐も
読まない。ここではそれを証明する。

## 値を写す

`Reactor.mapValues f` は wheel と待ち行列の値に `f` を当てる。reactor の操作はどれも値を覗かないので、
`insert_timer`、`remove_timer`、積み直し、`process_timers` は `mapValues` と入れ替わり、呼び出しの列も
入れ替わる（`run_mapValues`）。`poll_next` と `Drop` も、`clone` を `f ∘ clone` に替えれば入れ替わる。

`fires_in_key_order_erased`：組ごとに印を付けた reactor で発火の順序が言えれば、印を消したコードの
reactor の返す waker も同じ順に並ぶ。同じ task の二つの timer が同じ waker を入れても、その waker は
鍵の順に二度出る。

## 二つの系

`PlainSystem` はコードそのままの timer の集まりで、wheel の値は `Waker`、`clone` は `id` である。
`System.erase` は印を消す（`Prod.fst`）。

* `erase_runEvents` — 同じ出来事の列を走らせると、印付きの系の印を消したものはコードの系に等しい。
* `plain_wheel_registered` — コードの抽象の wheel のどの組も、生きている timer の今の登録である。
* `plain_fires_live_wakers` — コードの `process_timers` が返すどの waker も、期限の来た、
  生きている timer の登録した waker である。捨てた timer の登録は wheel に残らない。
-/

namespace AsyncWinit

namespace Call

variable {w : Nat} {V W : Type}

/-- `insert_timer` に渡す値を写す。 -/
def mapValues (f : V → W) : Call w V → Call w W
  | insertTimer deadline waker => insertTimer deadline (f waker)
  | removeTimer deadline id => removeTimer deadline id
  | processTimers now => processTimers now

end Call

namespace Reply

variable {w : Nat} {V W : Type}

/-- `process_timers` が返す値を写す。 -/
def mapValues (f : V → W) : Reply w V → Reply w W
  | inserted id => inserted id
  | removed => removed
  | processed wakers deadline => processed (wakers.map f) deadline

@[simp] theorem woken_mapValues (f : V → W) (rep : Reply w V) :
    (rep.mapValues f).woken = rep.woken.map f := by
  cases rep <;> rfl

end Reply

namespace Reactor

variable {w : Nat} {V W : Type}

/-- wheel と待ち行列の値に `f` を当てる。 -/
def mapValues (f : V → W) (r : Reactor w V) : Reactor w W where
  exitCode := r.exitCode
  timers := r.timers.mapValues f
  timerOpQueue := r.timerOpQueue.map (TimerOp.map f)
  timerId := r.timerId

@[simp] theorem timerId_mapValues (f : V → W) (r : Reactor w V) :
    (r.mapValues f).timerId = r.timerId := rfl

theorem abstractWheel_mapValues (f : V → W) (r : Reactor w V) :
    (r.mapValues f).abstractWheel = r.abstractWheel.mapValues f :=
  applyOps_map f _ _

theorem mapValues_drainQueue (f : V → W) (r : Reactor w V) :
    r.drainQueue.mapValues f = (r.mapValues f).drainQueue := by
  simp only [drainQueue, mapValues, processTimerOps_map]

theorem mapValues_pushOp_of_ok (f : V → W) {r : Reactor w V} {op : TimerOp w V}
    {q : BoundedQueue (TimerOp w V)} (h : r.timerOpQueue.push op = .ok q) :
    (r.pushOp op).mapValues f = (r.mapValues f).pushOp (op.map f) := by
  rw [pushOp_of_ok h, pushOp_of_ok (BoundedQueue.push_map_of_ok (TimerOp.map f) h)]
  rfl

/-- 積み直しは値を写すことと入れ替わる。満杯の道では、取り出した後の空の待ち行列に積む。 -/
theorem mapValues_pushOp (f : V → W) (r : Reactor w V) (op : TimerOp w V) :
    (r.pushOp op).mapValues f = (r.mapValues f).pushOp (op.map f) := by
  cases hp : r.timerOpQueue.push op with
  | ok q => exact mapValues_pushOp_of_ok f hp
  | error b =>
    have hp' : (r.mapValues f).timerOpQueue.push (op.map f) = .error (b.map f) :=
      BoundedQueue.push_map_of_error _ hp
    rw [pushOp_of_error hp, pushOp_of_error hp', ← mapValues_drainQueue]
    cases hq : r.drainQueue.timerOpQueue.push op with
    | ok q => exact mapValues_pushOp_of_ok f hq
    | error _ =>
      have hfull := (BoundedQueue.push_eq_error.mp hq).1
      rw [drainQueue_items, List.length_nil] at hfull
      exact absurd hfull r.drainQueue.timerOpQueue.capacity_pos.ne

theorem mapValues_insertTimer (f : V → W) (r : Reactor w V) (deadline : Instant) (waker : V) :
    (r.insertTimer deadline waker).1.mapValues f = ((r.mapValues f).insertTimer deadline (f waker)).1 :=
  mapValues_pushOp f _ _

theorem mapValues_removeTimer (f : V → W) (r : Reactor w V) (deadline : Instant) (id : BitVec w) :
    (r.removeTimer deadline id).mapValues f = (r.mapValues f).removeTimer deadline id :=
  mapValues_pushOp f _ _

/-- `process_timers` は値を写すことと入れ替わる。返す値の列も写したものになり、返す時刻は同じ。 -/
theorem mapValues_processTimers (f : V → W) (r : Reactor w V) (now : ClockReading) :
    ((r.processTimers now).1.mapValues f, (r.processTimers now).2.1.map f,
        (r.processTimers now).2.2) = (r.mapValues f).processTimers now := by
  simp only [processTimers, mapValues, processTimerOps_map, SortedMap.splitOff,
    ← SortedMap.mapValues_filterKeys, SortedMap.values_mapValues, SortedMap.isEmpty_mapValues,
    SortedMap.firstKey?_mapValues]

/-- 一回の呼び出しは、値を写すことと入れ替わる。 -/
theorem call_mapValues (f : V → W) (r : Reactor w V) (c : Call w V) :
    (r.mapValues f).call (c.mapValues f) = ((r.call c).1.mapValues f, (r.call c).2.mapValues f) := by
  cases c with
  | insertTimer d v => exact Prod.ext (mapValues_insertTimer f r d v).symm rfl
  | removeTimer d id => exact Prod.ext (mapValues_removeTimer f r d id).symm rfl
  | processTimers now =>
    simp only [Call.mapValues, call, Reply.mapValues, ← mapValues_processTimers]

/-- **値を写した reactor は、写した列で同じように動く。** 呼んだ後の reactor は写したもので、
返り値も写したものである。 -/
theorem run_mapValues (f : V → W) (r : Reactor w V) (cs : List (Call w V)) :
    (r.mapValues f).run (cs.map (Call.mapValues f)) =
      ((r.run cs).1.mapValues f, (r.run cs).2.map (Reply.mapValues f)) := by
  induction cs generalizing r with
  | nil => rfl
  | cons c cs ih => simp only [List.map_cons, run_cons, call_mapValues, ih]

/-- 写した reactor が起こす値は、起こした値を写したものである。 -/
theorem woken_run_mapValues (f : V → W) (r : Reactor w V) (cs : List (Call w V)) :
    ((r.mapValues f).run (cs.map (Call.mapValues f))).2.flatMap Reply.woken =
      ((r.run cs).2.flatMap Reply.woken).map f := by
  rw [run_mapValues, List.flatMap_map, List.map_flatMap]
  simp only [Reply.woken_mapValues]

/-- **同じ task の二つの timer も、鍵の順に両方起こす。** コードの wheel の値は `Waker` だけで、同じ task の
二つの timer は同じ waker を入れうるので、値で組を見分けられない。そこで組ごとに印を付けた値
`Waker × Nat` の reactor `r` と呼び出しの列 `cs` を考える。`r` の抽象の wheel に組 `a` と `b` があって
鍵が `a < b` で、二つの値がそれぞれ wheel のその組だけにあって後から入れられず、`r` で両方が起こされるなら、
印を消したコードの reactor を印を消した列で呼ぶとき、返す waker の列には `a` の waker と `b` の waker が
この順に出る。二つの waker が同じでも、その waker は二度出る。 -/
theorem fires_in_key_order_erased (cs : List (Call w (Waker × Nat))) (r : Reactor w (Waker × Nat))
    {a b : TimerKey w × (Waker × Nat)} (ha : a ∈ r.abstractWheel.entries)
    (hb : b ∈ r.abstractWheel.entries) (hlt : a.1 < b.1)
    (hua : ∀ e ∈ r.abstractWheel.entries, e.2 = a.2 → e = a)
    (hub : ∀ e ∈ r.abstractWheel.entries, e.2 = b.2 → e = b)
    (hins : ∀ d v, Call.insertTimer d v ∈ cs → v ≠ a.2 ∧ v ≠ b.2)
    (hwa : a.2 ∈ (r.run cs).2.flatMap Reply.woken) (hwb : b.2 ∈ (r.run cs).2.flatMap Reply.woken) :
    [a.2.1, b.2.1].Sublist
      (((r.mapValues Prod.fst).run (cs.map (Call.mapValues Prod.fst))).2.flatMap Reply.woken) := by
  rw [woken_run_mapValues]
  exact woken_map_sublist Prod.fst cs r ha hb hlt hua hub hins hwa hwb

/-- 一つの task の waker `⟨0, 0⟩` を、印 0 と 1 を付けて期限 10ns と 20ns に入れた reactor。 -/
def oneTaskTimers : Reactor 64 (Waker × Nat) := twoTimers (⟨0, 0⟩, 0) (⟨0, 0⟩, 1)

/-- `oneTaskTimers` に時刻 30ns の `process_timers` を呼ぶと、コードの reactor はその waker を二度返す。 -/
theorem fires_in_key_order_erased_one_task :
    ((⟨tenNanos, 1⟩, (⟨0, 0⟩, 0)) : TimerKey 64 × (Waker × Nat)) ∈
        oneTaskTimers.abstractWheel.entries ∧
      ((⟨twentyNanos, 2⟩, (⟨0, 0⟩, 1)) : TimerKey 64 × (Waker × Nat)) ∈
        oneTaskTimers.abstractWheel.entries ∧
      (⟨tenNanos, 1⟩ : TimerKey 64) < ⟨twentyNanos, 2⟩ ∧
      (∀ e ∈ oneTaskTimers.abstractWheel.entries,
        e.2 = (⟨0, 0⟩, 0) → e = (⟨tenNanos, 1⟩, (⟨0, 0⟩, 0))) ∧
      (∀ e ∈ oneTaskTimers.abstractWheel.entries,
        e.2 = (⟨0, 0⟩, 1) → e = (⟨twentyNanos, 2⟩, (⟨0, 0⟩, 1))) ∧
      (∀ d v, Call.insertTimer d v ∈ (processAt30 : List (Call 64 (Waker × Nat))) →
        v ≠ (⟨0, 0⟩, 0) ∧ v ≠ (⟨0, 0⟩, 1)) ∧
      (⟨0, 0⟩, 0) ∈ (oneTaskTimers.run processAt30).2.flatMap Reply.woken ∧
      (⟨0, 0⟩, 1) ∈ (oneTaskTimers.run processAt30).2.flatMap Reply.woken ∧
      [(⟨0, 0⟩ : Waker), ⟨0, 0⟩].Sublist (((oneTaskTimers.mapValues Prod.fst).run
        ((processAt30 : List (Call 64 (Waker × Nat))).map (Call.mapValues Prod.fst))).2.flatMap
          Reply.woken) := by
  refine ⟨?ha, ?hb, ?hlt, ?hua, ?hub, ?hins, ?hwa, ?hwb,
    fires_in_key_order_erased _ _ ?ha ?hb ?hlt ?hua ?hub ?hins ?hwa ?hwb⟩
  case hlt => simp [TimerKey.lt_iff, tenNanos, twentyNanos]
  case hins => simp [processAt30]
  case hua =>
    rw [oneTaskTimers, twoTimers_entries]
    rintro e (_ | ⟨_, _ | ⟨_, ⟨⟩⟩⟩) h
    · rfl
    · exact absurd h (by decide)
  case hub =>
    rw [oneTaskTimers, twoTimers_entries]
    rintro e (_ | ⟨_, _ | ⟨_, ⟨⟩⟩⟩) h
    · exact absurd h (by decide)
    · rfl
  case ha | hb => simp [oneTaskTimers, twoTimers_entries]
  case hwa | hwb => simp [oneTaskTimers, twoTimers_woken]

end Reactor

namespace Timer

variable {w : Nat} {V W : Type}

/-- **`poll_next` は印を読まない。** 値を写した reactor で、`clone` の後に `f` を当てて poll すると、
timer と結果は同じで、reactor は写したものになる。 -/
theorem pollNext_mapValues (f : V → W) (clone : Waker → V) (t : Timer w) (r : Reactor w V)
    (cx : Waker) (now : ClockReading) :
    ((t.pollNext clone r cx now).1, (t.pollNext clone r cx now).2.1.mapValues f,
        (t.pollNext clone r cx now).2.2) = t.pollNext (fun cx => f (clone cx)) (r.mapValues f) cx now := by
  rcases t with ⟨_ | ⟨id, w'⟩, _ | d, p⟩ <;> simp only [pollNext]
  all_goals split_ifs <;> (try split) <;>
    simp [Reactor.mapValues_insertTimer, Reactor.mapValues_removeTimer]

theorem clear_mapValues (f : V → W) (t : Timer w) (r : Reactor w V) :
    ((t.clear r).1, (t.clear r).2.mapValues f) = t.clear (r.mapValues f) := by
  rcases t with ⟨_ | ⟨id, w'⟩, _ | d, p⟩ <;> simp [clear, Reactor.mapValues_removeTimer]

end Timer

/-! ## 出来事の列 -/

/-- timer の作り方。どれも未登録の timer を作る。 -/
inductive Ctor where
  | never
  | «at» (deadline : Instant)
  | after (now : ClockReading) (duration : Duration)
  | interval (now : ClockReading) (period : Duration)
  | intervalAt (start : Instant) (period : Duration)

namespace Ctor

variable {w : Nat}

/-- `Timer::never`、`Timer::at`、`Timer::after`、`Timer::interval`、`Timer::interval_at`。 -/
def build : Ctor → Timer w
  | never => Timer.never
  | «at» deadline => Timer.at deadline
  | after now duration => Timer.after now duration
  | interval now period => Timer.interval now period
  | intervalAt start period => Timer.intervalAt start period

theorem build_idAndWaker (c : Ctor) : (c.build : Timer w).idAndWaker = none := by
  cases c with
  | after now duration => cases h : now.instant.checkedAdd duration <;> simp [build, Timer.after, h] <;> rfl
  | interval now period =>
    cases h : now.instant.checkedAdd period <;> simp [build, Timer.interval, h] <;> rfl
  | _ => rfl

end Ctor

/-- timer の集まりに起きること：作る、poll する、loop が `process_timers` を呼ぶ、捨てる。 -/
inductive SystemEvent where
  | create (c : Ctor)
  | poll (i : Nat) (cx : Waker) (now : ClockReading)
  | process (now : ClockReading)
  | drop (i : Nat)

namespace System

variable {w : Nat}

/-- 出来事を一つ起こす。 -/
def apply (s : System w) : SystemEvent → System w
  | .create c => s.create c.build
  | .poll i cx now => s.poll i cx now
  | .process now => s.process now
  | .drop i => s.drop i

/-- 出来事を順に起こす。 -/
def runEvents (s : System w) (es : List SystemEvent) : System w := es.foldl apply s

theorem Reachable.runEvents {s : System w} (h : Reachable s) :
    ∀ es : List SystemEvent, Reachable (s.runEvents es)
  | [] => h
  | e :: es => by
    have he : Reachable (s.apply e) := by
      cases e with
      | create c => exact .create _ (Ctor.build_idAndWaker c) h
      | poll i cx now => exact .poll i cx now h
      | process now => exact .process now h
      | drop i => exact .drop i h
    exact he.runEvents es

end System

/-! ## コードそのままの系 -/

/-- コードそのままの timer の集まり。wheel の値は `Waker` で、印はない。 -/
structure PlainSystem (w : Nat) where
  reactor : Reactor w Waker
  slots : List (Slot w)

namespace PlainSystem

variable {w : Nat}

/-- 作ったばかりの reactor で、timer はまだない。 -/
def init (w : Nat) : PlainSystem w := ⟨Reactor.new w Waker, []⟩

/-- 出来事を一つ起こす。`insert_timer` に渡すのは `cx.waker().clone()` である。 -/
def apply (s : PlainSystem w) : SystemEvent → PlainSystem w
  | .create c => { s with slots := s.slots ++ [⟨c.build, true, none⟩] }
  | .poll i cx now =>
    match s.slots[i]? with
    | some slot =>
      if slot.live then
        let res := slot.timer.pollNext id s.reactor cx now
        ⟨res.2.1, s.slots.set i ⟨res.1, true, some cx⟩⟩
      else s
    | none => s
  | .process now => { s with reactor := (s.reactor.processTimers now).1 }
  | .drop i =>
    match s.slots[i]? with
    | some slot =>
      if slot.live then
        let res := slot.timer.clear s.reactor
        ⟨res.2, s.slots.set i ⟨res.1, false, slot.lastPolled⟩⟩
      else s
    | none => s

/-- 出来事を順に起こす。 -/
def runEvents (s : PlainSystem w) (es : List SystemEvent) : PlainSystem w := es.foldl apply s

end PlainSystem

namespace System

variable {w : Nat}

/-- 印を消す。 -/
def erase (s : System w) : PlainSystem w := ⟨s.reactor.mapValues Prod.fst, s.slots⟩

theorem erase_init : (init w).erase = PlainSystem.init w := rfl

/-- 一つの出来事は、印を消すことと入れ替わる。 -/
theorem erase_apply (s : System w) (e : SystemEvent) : (s.apply e).erase = s.erase.apply e := by
  cases e with
  | create c => rfl
  | poll i cx now =>
    simp only [apply, poll, erase, PlainSystem.apply]
    rcases s.slots[i]? with _ | slot
    · rfl
    · dsimp only
      split_ifs
      · exact congrArg (fun p => PlainSystem.mk p.2.1 (s.slots.set i ⟨p.1, true, some cx⟩))
          (Timer.pollNext_mapValues Prod.fst (fun cx => (cx, i)) slot.timer s.reactor cx now)
      · rfl
  | process now =>
    exact congrArg (PlainSystem.mk · s.slots)
      (congrArg Prod.fst (Reactor.mapValues_processTimers Prod.fst s.reactor now))
  | drop i =>
    simp only [apply, drop, erase, PlainSystem.apply]
    rcases s.slots[i]? with _ | slot
    · rfl
    · dsimp only
      split_ifs
      · exact congrArg (fun p => PlainSystem.mk p.2 (s.slots.set i ⟨p.1, false, slot.lastPolled⟩))
          (Timer.clear_mapValues Prod.fst slot.timer s.reactor)
      · rfl

/-- **印は幽霊である。** どの状態から、どの出来事の列を走らせても、印付きの系の印を消したものは、
印を消した状態からコードの系を走らせたものに等しい。 -/
theorem erase_runEvents (s : System w) (es : List SystemEvent) :
    (s.runEvents es).erase = s.erase.runEvents es := by
  induction es generalizing s with
  | nil => rfl
  | cons e es ih => exact (ih (s.apply e)).trans (congrArg (PlainSystem.runEvents · es) (erase_apply s e))

end System

namespace PlainSystem

variable {w : Nat}

/-- **コードの wheel の組は、生きている timer の今の登録である。** `Reactor::new` からどの出来事の列を
走らせても、抽象の wheel のどの組 `(d, id) ↦ v` にも、生きている timer があって、その期限は `Some(d)`、
`id_and_waker` は `Some((id, v))` である。 -/
theorem plain_wheel_registered (es : List SystemEvent) {e : TimerKey w × Waker}
    (he : e ∈ ((init w).runEvents es).reactor.abstractWheel.entries) :
    ∃ (i : Nat) (slot : Slot w), ((init w).runEvents es).slots[i]? = some slot ∧ slot.live = true ∧
      slot.timer.idAndWaker = some (e.1.id, e.2) ∧ slot.timer.deadline = some e.1.deadline := by
  have hr := (System.Reachable.init (w := w)).runEvents es
  rw [← System.erase_init, ← System.erase_runEvents] at he ⊢
  simp only [System.erase, Reactor.abstractWheel_mapValues, SortedMap.mapValues_entries,
    List.mem_map] at he ⊢
  obtain ⟨e', he', rfl⟩ := he
  obtain ⟨slot, hslot, hlive, hid, hd⟩ := hr.good.registration e' he'
  exact ⟨_, slot, hslot, hlive, hid, hd⟩

/-- **コードの `process_timers` は生きている登録だけを起こす。** `Reactor::new` からどの出来事の列を
走らせた後でも、`process_timers` が返すどの waker `v` にも、生きている timer があって、その期限は
`now` 以下で、`id_and_waker` の waker は `v` である。 -/
theorem plain_fires_live_wakers (es : List SystemEvent) (now : ClockReading) {v : Waker}
    (hv : v ∈ (((init w).runEvents es).reactor.processTimers now).2.1) :
    ∃ (i : Nat) (slot : Slot w), ((init w).runEvents es).slots[i]? = some slot ∧ slot.live = true ∧
      ∃ id d, slot.timer.idAndWaker = some (id, v) ∧ slot.timer.deadline = some d ∧
        d ≤ now.instant := by
  rw [(Reactor.processTimers_spec _ now).out_eq, List.mem_map] at hv
  obtain ⟨e, he, rfl⟩ := hv
  rw [List.mem_filter, decide_eq_true_iff] at he
  obtain ⟨i, slot, hslot, hlive, hid, hd⟩ := plain_wheel_registered es he.1
  exact ⟨i, slot, hslot, hlive, _, _, hid, hd, he.2⟩

/-- `Timer::at(10ns)` を作り、時刻 5ns に waker `⟨0, 0⟩` で poll する。 -/
def atPolled : List SystemEvent :=
  [.create (.at ⟨10, by decide, by decide⟩), .poll 0 ⟨0, 0⟩ ⟨⟨5, by decide, by decide⟩, by decide⟩]

/-- 時刻 10ns。 -/
def tenNanosReading : ClockReading := ⟨⟨10, by decide, by decide⟩, by decide⟩

/-- `atPolled` の後、時刻 10ns の `process_timers` はその waker を返す。 -/
theorem plain_fires_live_wakers_at :
    (⟨0, 0⟩ : Waker) ∈ (((init 64).runEvents atPolled).reactor.processTimers tenNanosReading).2.1 ∧
      ∃ (i : Nat) (slot : Slot 64), ((init 64).runEvents atPolled).slots[i]? = some slot ∧
        slot.live = true ∧ ∃ id d, slot.timer.idAndWaker = some (id, ⟨0, 0⟩) ∧
          slot.timer.deadline = some d ∧ d ≤ tenNanosReading.instant := by
  refine (fun h => ⟨h, plain_fires_live_wakers _ _ h⟩) ?_
  simp [atPolled, tenNanosReading, runEvents, apply, init, Ctor.build, Timer.at, Timer.intervalAt,
    Timer.pollNext]
  rw [Reactor.processTimers_out, Reactor.abstractWheel_insertTimer, Reactor.abstractWheel_new,
    SortedMap.values, List.mem_map]
  exact ⟨_, (SortedMap.mem_filterKeys _ _ _).mpr ⟨(SortedMap.mem_insert _ _ _ _).mpr (.inl rfl),
    (Reactor.lt_splitKey_iff _ _).mpr le_rfl⟩, rfl⟩

end PlainSystem

end AsyncWinit
