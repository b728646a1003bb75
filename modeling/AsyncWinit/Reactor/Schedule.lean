import AsyncWinit.Reactor.Conservation

/-!
# 決まった thread だけを動かす道

`Reactor/Staging.lean` の置き場で、決まった thread の一歩だけを順に並べた道を作る。

## 一歩ずつの計算

`step` の各分岐を、できる条件のもとで前向きに書く（`step_call` から `step_loopSplit`）。
lock を持つ thread の取り出しは `runActions_pops` にまとめる。producer の `push` の道（満杯なら
lock、取り出し、unlock、積み直し）を `pushPath`、loop の `process_timers` の道を `loopPath` と名付け、
`runActions_lock_drain_unlock` と `runActions_loopDrain` でその道の後の状態を書く。

## 一つの thread の reactor

`Reactor/Basic.lean` の `insert_timer`、`remove_timer`、`process_timers` は、thread が一つのときの
呼び出しである。`reactor_run_schedule`：`Reactor::new` からのどの呼び出しの列にも、producer 0 と
loop だけが `pushPath` と `loopPath` で動く置き場の道があって、その後の置き場の wheel と待ち行列は
reactor のものに等しく、幽霊の `pushed` は reactor が積んだ操作の列そのもので、`history` から起きる値は
reactor の `process_timers` が返した値を順につないだものである。

## 落ちない操作

`pending_op_applied`：届く状態で lock が空き、loop が休んでいれば、producer の手元の操作は、
その producer の `pushPath` と loop の `loopPath` だけからなる道で積まれ、積まれたどの操作とも一緒に、
積まれた順に wheel に当たる。待ち行列が満杯なら、lock を取って取り出し、積み直す道を通る。

## loop の `split_off`

`loopSplit_fires_due`：並行の置き場でも、取り出しを終えた loop の `split_off` は、その wheel を持つ
`Reactor` の `process_timers` と同じことをし、`FiresDue` を満たす。

## 積み直しに上限はない

`retry_unbounded`：`insert_timer` / `remove_timer` の `while let Err(e) = push(op)` は、何度でも失敗しうる。
producer 1 が待ち行列を満たし続ける巡り（`bypassRound`）を重ねると、producer 0 はそのたびに lock を取って
producer 1 の操作を wheel に当てるが、自分の操作は一度も積めない。巡りの境目を `BypassReady` に書き、
一巡りの補題から何巡りでも境目に戻ることを示す。
-/

namespace AsyncWinit

namespace Staging

namespace Store

variable {w : Nat} {V : Type} {s : Store w V} {p : Nat} {op : TimerOp w V}

/-! ## 一歩ずつの計算 -/

theorem runActions_append (s : Store w V) (as bs : List (Action w V)) :
    s.runActions (as ++ bs) = (s.runActions as).bind fun s' => s'.runActions bs := by
  induction as generalizing s with
  | nil => rfl
  | cons a as ih =>
    show ((s.step a).bind fun s' => s'.runActions (as ++ bs)) = _
    simp only [runActions, ih, Option.bind_assoc]

theorem runActions_cons_of_step {s' : Store w V} {a : Action w V} (h : s.step a = some s')
    (as : List (Action w V)) : s.runActions (a :: as) = s'.runActions as := by
  simp only [runActions, h, Option.some_bind]

theorem step_call (h : s.producers p = .idle) : s.step (.call p op) = some { s with
    producers := Function.update s.producers p (.pushing op),
    issued := Function.update s.issued p (s.issued p ++ [op]) } := by
  simp only [step, h]

theorem step_push_ok (h : s.producers p = .pushing op) {q : BoundedQueue (TimerOp w V)}
    (hq : s.queue.push op = .ok q) : s.step (.push p) = some { s with
      queue := q, producers := Function.update s.producers p .idle,
      pushed := s.pushed ++ [(p, op)] } := by
  simp only [step, h, hq]

theorem step_push_error (h : s.producers p = .pushing op) {op' : TimerOp w V}
    (hq : s.queue.push op = .error op') :
    s.step (.push p) = some { s with producers := Function.update s.producers p (.locking op) } := by
  obtain ⟨-, rfl⟩ := BoundedQueue.push_eq_error.mp hq
  simp only [step, h, hq]

theorem step_lock (h : s.producers p = .locking op) (hl : s.lock = none) :
    s.step (.lock p) = some { s with
      lock := some (.producer p), taken := 0,
      producers := Function.update s.producers p (.draining op) } := by
  simp only [step, h, hl]

theorem step_pop (hl : s.lock.isSome) (ht : s.taken < s.queue.capacity) {a : TimerOp w V}
    {rest : List (TimerOp w V)} (hq : s.queue.items = a :: rest) :
    s.step .pop = some { s with
      timers := a.apply s.timers, queue := s.queue.dropFront 1,
      taken := s.taken + 1, applied := s.applied + 1, history := s.history ++ [.op a] } := by
  have hpop : s.queue.pop = some (a, s.queue.dropFront 1) := BoundedQueue.pop_eq_some.mpr ⟨rest, hq, rfl⟩
  simp only [step, hl, ht, and_self, if_true, hpop]

theorem step_unlock (op : TimerOp w V) (h : s.producers p = .draining op) (hd : s.drained = true) :
    s.step (.unlock p) = some { s with
      lock := none, producers := Function.update s.producers p (.pushing op) } := by
  simp only [step, h, hd, if_true]

theorem step_loopLock (hloop : s.loop = .idle) (hl : s.lock = none) :
    s.step .loopLock = some { s with
      lock := some .loop, taken := 0, loop := .draining s.pushed.length } := by
  simp only [step, hloop, hl]

theorem step_loopSplit {start : Nat} (hloop : s.loop = .draining start) (hd : s.drained = true)
    (now : ClockReading) : s.step (.loopSplit now) = some { s with
      timers := (s.timers.splitOff ⟨now.addOneNano, 0⟩).2, lock := none, loop := .idle,
      history := s.history ++ [.split ⟨now.addOneNano, 0⟩] } := by
  simp only [step, hloop, hd, if_true]

/-- 待ち行列が空なら、取り出しは終わっている。 -/
theorem drained_of_items_nil (h : s.queue.items = []) : s.drained = true := by
  simp [drained, h]

/-- lock を持つ thread が、待ち行列の先頭から `n` 個を取り出して順に wheel に当てる。 -/
theorem runActions_pops (s : Store w V) (n : Nat) (hl : s.lock.isSome)
    (hn : n ≤ s.queue.items.length) (hcap : s.taken + n ≤ s.queue.capacity) :
    s.runActions (List.replicate n .pop) = some { s with
      timers := applyOps (s.queue.items.take n) s.timers, queue := s.queue.dropFront n,
      taken := s.taken + n, applied := s.applied + n,
      history := s.history ++ (s.queue.items.take n).map Event.op } := by
  induction n generalizing s with
  | zero => simp [runActions]
  | succ n ih =>
    obtain ⟨a, rest, hq⟩ := List.exists_cons_of_length_pos (show 0 < s.queue.items.length by omega)
    rw [List.replicate_succ, runActions_cons_of_step (step_pop hl (by omega) hq), ih]
    · simp only [hq, BoundedQueue.dropFront_items, List.drop_one, List.tail_cons, List.take_succ_cons,
        applyOps_cons, BoundedQueue.dropFront_dropFront, List.map_cons, List.append_assoc,
        List.singleton_append, Nat.add_assoc, Nat.add_comm 1 n]
    · exact hl
    · simp only [BoundedQueue.dropFront_items, List.length_drop]
      omega
    · simp only [BoundedQueue.dropFront_capacity]
      omega

/-- producer `p` の `push` の道。空きがあれば一度の `push` で積む。満杯（`full`）なら失敗して lock を取り、
待ち行列の `n` 個を取り出して wheel に当て、lock を放して積み直す。 -/
def pushPath (p n : Nat) (full : Bool) : List (Action w V) :=
  if full then .push p :: .lock p :: (List.replicate n .pop ++ [.unlock p, .push p]) else [.push p]

/-- loop の `process_timers` の道。lock を取り、待ち行列の `n` 個を取り出して wheel に当て、
`split_off` して放す。 -/
def loopPath (n : Nat) (now : ClockReading) : List (Action w V) :=
  .loopLock :: (List.replicate n .pop ++ [.loopSplit now])

/-- loop の `process_timers`：lock を取り、待ち行列を全部取り出して wheel に当て、`split_off` して放す。 -/
theorem runActions_loopDrain (hloop : s.loop = .idle) (hl : s.lock = none) (now : ClockReading) :
    s.runActions (loopPath s.queue.items.length now) = some { s with
      timers := ((applyOps s.queue.items s.timers).splitOff ⟨now.addOneNano, 0⟩).2,
      queue := s.queue.dropFront s.queue.items.length, taken := s.queue.items.length,
      applied := s.applied + s.queue.items.length,
      history := s.history ++ s.queue.items.map Event.op ++ [.split ⟨now.addOneNano, 0⟩] } := by
  rw [loopPath, runActions_cons_of_step (step_loopLock hloop hl), runActions_append,
    runActions_pops _ _ (by rfl) le_rfl (by simpa using s.queue.length_le), Option.some_bind,
    runActions_cons_of_step (step_loopSplit rfl (drained_of_items_nil (by simp)) now)]
  simp [runActions, hl, hloop]

/-- 満杯の `push` の後：lock を取り、待ち行列の `n` 個を全部取り出して wheel に当て、lock を放して
`push` の前に戻る。 -/
theorem runActions_lock_drain_unlock {n : Nat} (hp : s.producers p = .locking op) (hl : s.lock = none)
    (hn : s.queue.items.length = n) (as : List (Action w V)) :
    s.runActions (.lock p :: (List.replicate n .pop ++ .unlock p :: as)) = runActions { s with
      timers := applyOps s.queue.items s.timers, queue := s.queue.dropFront n, taken := n,
      applied := s.applied + n, history := s.history ++ s.queue.items.map Event.op,
      producers := Function.update s.producers p (.pushing op) } as := by
  subst hn
  rw [runActions_cons_of_step (step_lock hp hl), runActions_append,
    runActions_pops _ _ (by rfl) le_rfl (by simpa using s.queue.length_le), Option.some_bind,
    runActions_cons_of_step (step_unlock op _ _)]
  · simp [hl]
  · simp
  · exact drained_of_items_nil (by simp)

/-! ## reactor と同じ置き場 -/

/-- 置き場の wheel と待ち行列が reactor のものに等しい。 -/
structure Mirrors (s : Store w V) (r : Reactor w V) : Prop where
  timers : s.timers = r.timers
  queue : s.queue = r.timerOpQueue

/-- producer の `push` の道は `Reactor.pushOp` である。空きがあれば一度で積み、満杯なら lock を取って
待ち行列を全部取り出し、空になった待ち行列に積み直す。producer は休みに戻り、操作は積まれた列の最後に
加わり、wheel には取り出した操作だけが当たる。lock は空いたままで、loop は動かない。 -/
theorem runActions_push {r : Reactor w V} (hm : Mirrors s r) (hp : s.producers p = .pushing op)
    (hl : s.lock = none) :
    ∃ s', s.runActions (pushPath p s.queue.items.length (s.queue.items.length == s.queue.capacity)) =
        some s' ∧ Mirrors s' (r.pushOp op) ∧ s'.producers = Function.update s.producers p .idle ∧
      s'.pushed = s.pushed ++ [(p, op)] ∧ (∃ ops : List (TimerOp w V), s'.history = s.history ++ ops.map Event.op) ∧
      s'.queue.items = (if s.queue.items.length = s.queue.capacity then [op] else s.queue.items ++ [op]) ∧
      s'.lock = none ∧ s'.loop = s.loop := by
  cases hq : s.queue.push op with
  | ok q =>
    obtain ⟨hlt, hitems, -⟩ := BoundedQueue.push_eq_ok.mp hq
    have hr : r.pushOp op = { r with timerOpQueue := q } := Reactor.pushOp_of_ok (hm.queue ▸ hq)
    rw [pushPath, if_neg (by simpa using hlt.ne)]
    exact ⟨_, runActions_cons_of_step (step_push_ok hp hq) [],
      ⟨by rw [hr]; exact hm.timers, by rw [hr]⟩, rfl, rfl, ⟨[], by simp⟩,
      by rw [if_neg hlt.ne]; exact hitems, hl, rfl⟩
  | error b =>
    have hfull := (BoundedQueue.push_eq_error.mp hq).1
    have hd : r.drainQueue.timerOpQueue = s.queue.dropFront s.queue.items.length := by
      simp [Reactor.drainQueue, processTimerOps_eq, hm.queue]
    obtain ⟨q, hq', hitems, -⟩ := BoundedQueue.exists_push_eq_ok (q := r.drainQueue.timerOpQueue)
      (by simpa using r.drainQueue.timerOpQueue.capacity_pos) op
    have hr : r.pushOp op = { r.drainQueue with timerOpQueue := q } := by
      rw [Reactor.pushOp_of_error (hm.queue ▸ hq), Reactor.pushOp_of_ok hq']
    rw [pushPath, if_pos (by simpa using hfull), runActions_cons_of_step (step_push_error hp hq),
      runActions_lock_drain_unlock (s := { s with producers := Function.update s.producers p (.locking op) })
        (Function.update_same _ _ _) hl rfl [.push p],
      runActions_cons_of_step (step_push_ok ?hv ?hb)]
    case hb => exact hd ▸ hq'
    case hv => simp
    refine ⟨_, rfl, ⟨?_, by rw [hr]⟩, by simp, rfl, ⟨s.queue.items, rfl⟩, ?_, hl, rfl⟩
    · simp [hr, Reactor.drainQueue, processTimerOps_eq, hm.timers, hm.queue]
    · simpa [hfull] using hitems

/-- **積み直しは操作を落とさない。** 届く状態で lock が空き、loop が休んでいれば、producer `p` の
手元の操作 `op` は、`p` の `push` の道（待ち行列が満杯なら、lock を取って全部取り出し、lock を放して
積み直す道）と、それに続く loop の `process_timers` の道だけで積まれ、積まれたどの操作とも一緒に、
積まれた順に wheel に当たる。 -/
theorem pending_op_applied (h : Reachable s) (hp : s.producers p = .pushing op)
    (hl : s.lock = none) (hloop : s.loop = .idle) (now : ClockReading) :
    ∃ s', s.runActions (pushPath p s.queue.items.length (s.queue.items.length == s.queue.capacity) ++
        loopPath (if s.queue.items.length = s.queue.capacity then 1 else s.queue.items.length + 1) now) =
        some s' ∧
      Reachable s' ∧ s'.pushed = s.pushed ++ [(p, op)] ∧
      s'.history.filterMap Event.op? = s'.pushed.map Prod.snd ∧ s'.queue.items = [] ∧
      s'.producers p = .idle ∧ s'.lock = none ∧ s'.loop = .idle := by
  obtain ⟨s₁, h₁, -, hprod₁, hpushed₁, -, hitems₁, hl₁, hloop₁⟩ :=
    runActions_push (r := { Reactor.new w V with timers := s.timers, timerOpQueue := s.queue })
      ⟨rfl, rfl⟩ hp hl
  have hn : s₁.queue.items.length =
      if s.queue.items.length = s.queue.capacity then 1 else s.queue.items.length + 1 := by
    rw [hitems₁]
    split <;> simp
  have hrun' : s.runActions (pushPath p s.queue.items.length (s.queue.items.length == s.queue.capacity) ++
      loopPath (if s.queue.items.length = s.queue.capacity then 1 else s.queue.items.length + 1) now) =
      s₁.runActions (loopPath s₁.queue.items.length now) := by
    rw [runActions_append, h₁, Option.some_bind, hn]
  rw [runActions_loopDrain (hloop₁.trans hloop) hl₁ now] at hrun'
  have hr := h.runActions _ hrun'
  have hg := hr.good
  have hempty : (s₁.queue.dropFront s₁.queue.items.length).items = [] := by simp
  have hall : (s₁.pushed.map Prod.snd).length ≤ s₁.applied + s₁.queue.items.length :=
    List.drop_eq_nil_iff.mp (hempty ▸ hg.queued).symm
  refine ⟨_, hrun', hr, hpushed₁, ?_, hempty, by simp [hprod₁], hl₁, hloop₁.trans hloop⟩
  rw [hg.ops, List.take_of_length_le hall]

/-- producer 1 が呼ぶ、期限 20ns の `insert_timer`。 -/
def retryOp : TimerOp 64 Nat := .insertTimer ⟨20, by decide, by decide⟩ 2 1

/-- 容量 1 の待ち行列に producer 0 が一つ積み、producer 1 が `retryOp` で `insert_timer` を呼ぶ。 -/
def fillThenCall : List (Action 64 Nat) :=
  [.call 0 (.insertTimer ⟨10, by decide, by decide⟩ 1 0), .push 0, .call 1 retryOp]

/-- loop の `process_timers` が読む時刻 30ns。 -/
def retrySplitAt : ClockReading := ⟨⟨30, by decide, by decide⟩, by decide⟩

/-- `fillThenCall` の後、待ち行列は満杯なので、producer 1 の `push` は失敗し、取り出しと積み直しの道を通る。 -/
theorem pending_op_applied_full :
    ∃ s : Store 64 Nat, (init 1 (by decide)).runActions fillThenCall = some s ∧
      Reachable s ∧ s.producers 1 = .pushing retryOp ∧
      s.lock = none ∧ s.loop = .idle ∧ s.queue.items.length = s.queue.capacity ∧
      ∃ s', s.runActions (pushPath 1 s.queue.items.length (s.queue.items.length == s.queue.capacity) ++
          loopPath (if s.queue.items.length = s.queue.capacity then 1 else s.queue.items.length + 1)
            retrySplitAt) = some s' ∧
        Reachable s' ∧ s'.pushed = s.pushed ++ [(1, retryOp)] ∧
        s'.history.filterMap Event.op? = s'.pushed.map Prod.snd ∧ s'.queue.items = [] ∧
        s'.producers 1 = .idle ∧ s'.lock = none ∧ s'.loop = .idle := by
  refine Exists.imp (fun s hs => ⟨hs, ?_⟩) (Option.isSome_iff_exists.mp rfl)
  have key : ∀ {β : Type} (f : Store 64 Nat → β) (b : β), (some s).map f = some b → f s = b :=
    fun _ _ h => Option.some.inj h
  rw [← hs] at key
  have hr := (Reachable.init _ _).runActions _ hs
  have hp := key (fun s => s.producers 1) (.pushing retryOp) rfl
  have hstate := key (fun s => (s.lock, s.loop, s.queue.items.length, s.queue.capacity))
    (none, .idle, 1, 1) rfl
  simp only [Prod.mk.injEq] at hstate
  obtain ⟨hl, hloop, hlen, hcap⟩ := hstate
  exact ⟨hr, hp, hl, hloop, hlen.trans hcap.symm, pending_op_applied hr hp hl hloop retrySplitAt⟩

/-! ## loop の `split_off` -/

/-- **並行の `process_timers` も wheel を `now` で分ける。** 届く状態で loop が取り出しを終えたとき、
lock を取る前に積まれていた操作は全部、積まれた順に wheel に当たっていて、`split_off` の一歩は、
取り出した後の wheel `M` を抽象 wheel に持つどの `Reactor` の `process_timers` とも同じ wheel を残し、
同じ値を起こす。したがって `M` について `FiresDue` が成り立つ：期限が `now` 以下の組の値だけを鍵の昇順に
一度ずつ起こし、残りを wheel に残し、返す時刻は `now`、残った期限の最小、または `None` である。
取り出しの間に他の producer が積んだ操作は、当たっていれば `M` に入り、当たっていなければ待ち行列に残る。 -/
theorem loopSplit_fires_due (h : Reachable s) {start : Nat} (hloop : s.loop = .draining start)
    (hd : s.drained = true) (now : ClockReading) :
    ∃ s', s.step (.loopSplit now) = some s' ∧
      ((s.pushed.map Prod.snd).take start).IsPrefix (s.history.filterMap Event.op?) ∧
      ∀ r : Reactor w V, r.abstractWheel = s.timers →
        s'.timers = (r.processTimers now).1.timers ∧
        Event.woken s.timers (.split ⟨now.addOneNano, 0⟩) = (r.processTimers now).2.1 ∧
        Reactor.FiresDue s.timers now (r.processTimers now).1 (r.processTimers now).2.1
          (r.processTimers now).2.2 := by
  refine ⟨_, step_loopSplit hloop hd now, ?_, fun r hr => ⟨?_, ?_, hr ▸ Reactor.processTimers_spec r now⟩⟩
  · rw [h.good.ops]
    exact List.take_prefix_take_left _ (h.good.start_le_applied hloop hd)
  · rw [Reactor.processTimers_timers, hr]
    rfl
  · rw [Reactor.processTimers_out, hr]
    rfl

/-- 期限 10ns の組を積んで時刻 20ns の `process_timers` で起こし、期限 30ns の組を積んで、次の
`process_timers` が取り出しを終えるまで。 -/
def secondDrain : List (Action 64 Nat) :=
  [.call 0 (.insertTimer ⟨10, by decide, by decide⟩ 1 0), .push 0, .loopLock, .pop,
    .loopSplit ⟨⟨20, by decide, by decide⟩, by decide⟩,
    .call 0 (.insertTimer ⟨30, by decide, by decide⟩ 2 1), .push 0, .loopLock, .pop]

/-- 二度目の `split_off` の時刻。 -/
def secondSplitAt : ClockReading := ⟨⟨40, by decide, by decide⟩, by decide⟩

theorem loopSplit_fires_due_second :
    ∃ s : Store 64 Nat, (init 1024 (by decide)).runActions secondDrain = some s ∧
      Reachable s ∧ s.loop = .draining 2 ∧ s.drained = true ∧
      ∃ s', s.step (.loopSplit secondSplitAt) = some s' ∧
        ((s.pushed.map Prod.snd).take 2).IsPrefix (s.history.filterMap Event.op?) ∧
        ∀ r : Reactor 64 Nat, r.abstractWheel = s.timers →
          s'.timers = (r.processTimers secondSplitAt).1.timers ∧
          Event.woken s.timers (.split ⟨secondSplitAt.addOneNano, 0⟩) = (r.processTimers secondSplitAt).2.1 ∧
          Reactor.FiresDue s.timers secondSplitAt (r.processTimers secondSplitAt).1
            (r.processTimers secondSplitAt).2.1 (r.processTimers secondSplitAt).2.2 := by
  refine Exists.imp (fun s hs => ⟨hs, ?_⟩) (Option.isSome_iff_exists.mp rfl)
  have hr := (Reachable.init _ _).runActions _ hs
  have hloop : (some s).map (fun s => (s.loop, s.drained)) = some (.draining 2, true) := by
    rw [← hs]
    rfl
  simp only [Option.map_some', Option.some.injEq, Prod.mk.injEq] at hloop
  exact ⟨hr, hloop.1, hloop.2, loopSplit_fires_due hr hloop.1 hloop.2 _⟩

/-! ## 積み直しに上限はない -/

/-- producer `q` が `ops` の操作で順に `insert_timer`（または `remove_timer`）を呼び、どれも一度で積む。 -/
def fillActions (q : Nat) (ops : List (TimerOp w V)) : List (Action w V) :=
  ops.flatMap fun o => [.call q o, .push q]

/-- 一巡り：producer `q` が `ops` を積んで待ち行列を満たし、producer `p` の `push` は失敗して lock を取り、
`ops` を全部取り出して wheel に当て、lock を放す。 -/
def bypassRound (p q : Nat) (ops : List (TimerOp w V)) : List (Action w V) :=
  fillActions q ops ++ (.push p :: .lock p :: (List.replicate ops.length .pop ++ [.unlock p]))

/-- 一巡りの境目：待ち行列は空で lock は空き、`p` は `op` を手に `push` の前、`q` は休んでいる。 -/
structure BypassReady (s : Store w V) (p q : Nat) (op : TimerOp w V) : Prop where
  empty : s.queue.items = []
  unlocked : s.lock = none
  victim : s.producers p = .pushing op
  peer : s.producers q = .idle

/-- 休んでいる producer の呼び出しが、一度の `push` で積める。 -/
theorem runActions_call_push_ok (hp : s.producers p = .idle) {b : BoundedQueue (TimerOp w V)}
    (hb : s.queue.push op = .ok b) (as : List (Action w V)) :
    s.runActions (.call p op :: .push p :: as) = runActions { s with
      queue := b, pushed := s.pushed ++ [(p, op)],
      issued := Function.update s.issued p (s.issued p ++ [op]) } as := by
  simp only [runActions, step, hp, Function.update_same, hb, Option.some_bind, Function.update_idem]
  rw [← hp, Function.update_eq_self]

/-- 空きが `ops` の数以上あれば、休んでいる producer の呼び出しはどれも一度で積める。 -/
theorem runActions_fill (q : Nat) :
    ∀ (ops : List (TimerOp w V)) (s : Store w V), s.producers q = .idle →
      s.queue.items.length + ops.length ≤ s.queue.capacity →
      ∃ b : BoundedQueue (TimerOp w V), b.items = s.queue.items ++ ops ∧
        b.capacity = s.queue.capacity ∧
        s.runActions (fillActions q ops) = some { s with
          queue := b, pushed := s.pushed ++ ops.map (Prod.mk q),
          issued := Function.update s.issued q (s.issued q ++ ops) }
  | [], s, _, _ => ⟨s.queue, by simp, rfl, by simp [fillActions, runActions]⟩
  | o :: ops, s, hq, hk => by
    obtain ⟨b₁, hb₁, hitems₁, hcap₁⟩ := BoundedQueue.exists_push_eq_ok
      (show s.queue.items.length < s.queue.capacity by simp at hk; omega) o
    obtain ⟨b, hitems, hcap, hrun⟩ := runActions_fill q ops
      { s with
        queue := b₁, pushed := s.pushed ++ [(q, o)],
        issued := Function.update s.issued q (s.issued q ++ [o]) } hq
      (by simp at hk; simp [hitems₁, hcap₁]; omega)
    dsimp only at hitems hcap hrun
    refine ⟨b, by rw [hitems, hitems₁, List.append_assoc, List.singleton_append], hcap.trans hcap₁, ?_⟩
    rw [fillActions, List.flatMap_cons, List.cons_append, List.cons_append, List.nil_append,
      runActions_call_push_ok hq hb₁, ← fillActions, hrun]
    simp

/-- 一巡りの後も境目にいる。`q` の操作は全部積まれて、積まれた順に wheel に当たり、`p` の操作は手元に残る。 -/
theorem BypassReady.runActions_round {q : Nat} (hr : s.BypassReady p q op) (hpq : p ≠ q)
    {ops : List (TimerOp w V)} (hlen : ops.length = s.queue.capacity) :
    ∃ s', s.runActions (bypassRound p q ops) = some s' ∧ s'.BypassReady p q op ∧
      s'.queue.capacity = s.queue.capacity ∧ s'.timers = applyOps ops s.timers ∧
      s'.pushed = s.pushed ++ ops.map (Prod.mk q) ∧ s'.applied = s.applied + ops.length := by
  obtain ⟨b, hitems, hcap, hfill⟩ := runActions_fill q ops s hr.peer (by simp [hr.empty, hlen])
  have hfull : b.items.length = b.capacity := by simp [hitems, hcap, hr.empty, hlen]
  rw [bypassRound, runActions_append, hfill, Option.some_bind,
    runActions_cons_of_step (step_push_error ?hv (BoundedQueue.push_eq_error.mpr ⟨hfull, rfl⟩)),
    runActions_lock_drain_unlock ?hp ?hl ?hn []]
  case hv => exact hr.victim
  case hp => exact Function.update_same _ _ _
  case hl => exact hr.unlocked
  case hn => simp [hitems, hr.empty]
  refine ⟨_, rfl, ⟨?_, ?_, ?_, ?_⟩, ?_, ?_, ?_, ?_⟩ <;>
    simp [hitems, hcap, hr.empty, hr.unlocked, hpq.symm, hr.peer, hlen]

/-- 何巡りしても境目にいる。`q` の操作は全部、積まれた順に積まれ、`p` は一度も積めない。 -/
theorem BypassReady.runActions_rounds {q : Nat} (hpq : p ≠ q) :
    ∀ (rs : List (List (TimerOp w V))) {s : Store w V}, s.BypassReady p q op →
      (∀ ops ∈ rs, ops.length = s.queue.capacity) →
      ∃ s', s.runActions (rs.flatMap (bypassRound p q)) = some s' ∧ s'.BypassReady p q op ∧
        s'.queue.capacity = s.queue.capacity ∧ s'.pushed = s.pushed ++ rs.flatten.map (Prod.mk q) ∧
        s'.applied = s.applied + rs.length * s.queue.capacity
  | [], s, hr, _ => ⟨s, rfl, hr, rfl, by simp, by simp⟩
  | ops :: rs, s, hr, hrs => by
    obtain ⟨s₁, h₁, hr₁, hcap₁, -, hpushed₁, happ₁⟩ := hr.runActions_round hpq (hrs ops (.head _))
    obtain ⟨s₂, h₂, hr₂, hcap₂, hpushed₂, happ₂⟩ :=
      BypassReady.runActions_rounds hpq rs hr₁ fun ops' h => (hrs ops' (.tail _ h)).trans hcap₁.symm
    refine ⟨s₂, ?_, hr₂, hcap₂.trans hcap₁, ?_, ?_⟩
    · rw [List.flatMap_cons, runActions_append, h₁, Option.some_bind, h₂]
    · rw [hpushed₂, hpushed₁, List.flatten_cons, List.map_append, List.append_assoc]
    · rw [happ₂, happ₁, hcap₁, hrs ops (.head _), List.length_cons, Nat.succ_mul]
      omega

/-- **`insert_timer` の積み直しに上限はない。** 容量 `N` のどの待ち行列でも、producer 0 が操作 `op` で
`insert_timer`（または `remove_timer`）を呼んだ後、producer 1 が `N` 個ずつの呼び出しで待ち行列を満たす
巡りを何度でも繰り返せる。どの巡りでも producer 0 の `push` は失敗し、lock を取って producer 1 の `N` 個を
wheel に当てるが、producer 0 の `op` は手元に残ったままで一度も積まれない。`process_timer_ops` の
`take(limit)` は一度の取り出しを抑えるが、`while let Err(e) = push(op)` の回数は抑えない。 -/
theorem retry_unbounded (N : Nat) (hN : 0 < N) (op : TimerOp w V) (rs : List (List (TimerOp w V)))
    (hrs : ∀ ops ∈ rs, ops.length = N) :
    ∃ s, (init N hN).runActions (.call 0 op :: rs.flatMap (bypassRound 0 1)) = some s ∧
      s.producers 0 = .pushing op ∧ s.pushed = rs.flatten.map (Prod.mk 1) ∧ s.applied = rs.length * N := by
  have hr : BypassReady { (init N hN : Store w V) with
      producers := Function.update (init N hN : Store w V).producers 0 (.pushing op),
      issued := Function.update (init N hN : Store w V).issued 0 [op] } 0 1 op :=
    ⟨rfl, rfl, by simp, rfl⟩
  obtain ⟨s, hs, hr', -, hpushed, happ⟩ := hr.runActions_rounds (by decide) rs hrs
  rw [runActions_cons_of_step (step_call rfl)]
  exact ⟨s, hs, hr'.victim, hpushed.trans (List.nil_append _), happ.trans (Nat.zero_add _)⟩

/-- producer 1 が一巡りに一つずつ積む操作：新しい番号の `insert_timer` を二つと `remove_timer` を一つ。 -/
def bypassOps : List (List (TimerOp 64 Nat)) :=
  [[.insertTimer ⟨20, by decide, by decide⟩ 1 1], [.insertTimer ⟨30, by decide, by decide⟩ 2 1],
    [.removeTimer ⟨20, by decide, by decide⟩ 1]]

/-- producer 0 が積もうとする `insert_timer`。 -/
def victimOp : TimerOp 64 Nat := .insertTimer ⟨10, by decide, by decide⟩ 0 0

/-- 容量 1 の待ち行列で、producer 1 が `bypassOps` を一巡りに一つずつ積む間、producer 0 の
`victimOp` は三度とも積めない。 -/
theorem retry_unbounded_three_rounds :
    (∀ ops ∈ bypassOps, ops.length = 1) ∧
      ∃ s : Store 64 Nat, (init 1 (by decide)).runActions
          (.call 0 victimOp :: bypassOps.flatMap (bypassRound 0 1)) = some s ∧
        s.producers 0 = .pushing victimOp ∧ s.pushed = bypassOps.flatten.map (Prod.mk 1) ∧
        s.applied = bypassOps.length * 1 :=
  have hrs : ∀ ops ∈ bypassOps, ops.length = 1 := by simp [bypassOps]
  ⟨hrs, retry_unbounded 1 (by decide) _ _ hrs⟩

end Store

end Staging

end AsyncWinit
