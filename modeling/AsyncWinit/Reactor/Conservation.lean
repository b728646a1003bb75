import AsyncWinit.Reactor.Fresh
import AsyncWinit.Reactor.Staging
import Mathlib.Data.Multiset.Basic
import Mathlib.Tactic.Abel

/-!
# waker の出入り

reactor に渡した waker がどこへ行くかを数える。waker が wheel を出る道は三つしかない。

* `process_timers` が `split_off` の前の部分を `wakers` に足す（起こす）。
* `process_timer_ops` の `RemoveTimer` が `timers.remove` で取り出し、`catch_unwind` の中で落とす。
* `process_timer_ops` の `InsertTimer` の `timers.insert` が、同じ鍵の前の値を置き換えて落とす。

待ち行列は先入れ先出しなので、op が当たる時の wheel は、それを積んだ時の抽象の wheel である。
そこで落ちる値は、呼んだ時の抽象の wheel で決まる（`removedBy`、`replacedBy`）。

## 結果

* `wakers_conserved` — どの reactor の状態から、どの呼び出しの列を呼んでも、前からの値と
  `insert_timer` に渡した値は、起こした値、`remove` が落とした値、`insert` が置き換えて落とした値、
  まだ抽象の wheel にある値に、重なりなく分かれる。どの waker も、渡した回数より多くは起こされない。
* `no_waker_lost` — `Reactor::new` から、id が回らず `remove_timer` に発行済みの id だけを渡す列では、
  `insert` が値を置き換えて落とすことはない。渡した waker は、起こされたか、`remove_timer` で落ちたか、
  まだ wheel にある。
* `store_wakers_conserved` — 二段の置き場をどの thread がどう挟んで使っても、wheel に当たった
  `InsertTimer` の値は、loop の `split_off` が起こした値、`process_timer_ops` が落とした値、まだ wheel に
  ある値に、重なりなく分かれる。
-/

namespace AsyncWinit

section

variable {w : Nat} {V : Type}

namespace TimerOp

/-- op が wheel に入れる値。 -/
def inserted : TimerOp w V → List V
  | insertTimer _ _ waker => [waker]
  | removeTimer _ _ => []

/-- `process_timer_ops` がこの op を当てる時に wheel から出して落とす値：`insert` が置き換えた
同じ鍵の値か、`remove` が取り出した値。 -/
def dropped (m : Wheel w V) (op : TimerOp w V) : List V := (m.get? op.key).toList

/-- op 一つは、入れた値と出した値のほかに wheel の値を変えない。 -/
theorem values_apply (m : Wheel w V) (op : TimerOp w V) :
    (m.values : Multiset V) + op.inserted = (op.dropped m : Multiset V) + (op.apply m).values := by
  rw [Multiset.coe_add, Multiset.coe_add, Multiset.coe_eq_coe]
  cases op with
  | insertTimer d id v => exact SortedMap.values_insert_perm m _ v
  | removeTimer d id => simpa [inserted] using SortedMap.values_remove_perm m ⟨d, id⟩

end TimerOp

namespace Call

/-- `insert_timer` に渡した値。 -/
def inserted : Call w V → List V
  | insertTimer _ waker => [waker]
  | _ => []

end Call

namespace Reactor

/-- この回の `RemoveTimer` を `process_timer_ops` が当てる時に、`remove` が取り出して落とす値。 -/
def removedBy (r : Reactor w V) : Call w V → List V
  | .removeTimer d id => (r.abstractWheel.get? ⟨d, id⟩).toList
  | _ => []

/-- この回の `InsertTimer` を当てる時に、`insert` が置き換えて落とす同じ鍵の前の値。 -/
def replacedBy (r : Reactor w V) : Call w V → List V
  | .insertTimer d _ => (r.abstractWheel.get? ⟨d, r.timerId⟩).toList
  | _ => []

/-- 列を順に呼ぶ間、各回の前の reactor で `f` が集める値。 -/
def collect {α : Type} (f : Reactor w V → Call w V → List α) (r : Reactor w V) : List (Call w V) → List α
  | [] => []
  | c :: cs => f r c ++ collect f (r.call c).1 cs

theorem collect_concat {α : Type} (f : Reactor w V → Call w V → List α) (r : Reactor w V)
    (cs : List (Call w V)) (c : Call w V) : r.collect f (cs ++ [c]) = r.collect f cs ++ f (r.run cs).1 c := by
  induction cs generalizing r with
  | nil => simp [collect]
  | cons c' cs ih => simp [collect, ih]

/-- **一回の呼び出しの出入り。** 呼ぶ前の抽象の wheel の値と `insert_timer` に渡した値は、起こした値、
`remove` が落とす値、`insert` が置き換えて落とす値、呼んだ後の抽象の wheel の値に分かれる。 -/
theorem values_call (r : Reactor w V) (c : Call w V) :
    (r.abstractWheel.values : Multiset V) + c.inserted =
      ((r.call c).2.woken : Multiset V) + r.removedBy c + r.replacedBy c +
        (r.call c).1.abstractWheel.values := by
  simp only [Multiset.coe_add, Multiset.coe_eq_coe]
  cases c with
  | insertTimer d v =>
    simpa [call, Reply.woken, Call.inserted, removedBy, replacedBy] using
      SortedMap.values_insert_perm r.abstractWheel ⟨d, r.timerId⟩ v
  | removeTimer d id =>
    simpa [call, Reply.woken, Call.inserted, removedBy, replacedBy] using
      SortedMap.values_remove_perm r.abstractWheel ⟨d, id⟩
  | processTimers now =>
    simpa [call, Reply.woken, Call.inserted, removedBy, replacedBy, processTimers_out,
      abstractWheel_processTimers] using
      SortedMap.values_splitOff_perm r.abstractWheel ⟨now.addOneNano, 0⟩

/-- 列の出入り：`values_call` を一回ずつ足し合わせる。 -/
theorem values_run (r : Reactor w V) (cs : List (Call w V)) :
    (r.abstractWheel.values : Multiset V) + cs.flatMap Call.inserted =
      ((r.run cs).2.flatMap Reply.woken : Multiset V) + r.collect removedBy cs +
        r.collect replacedBy cs + (r.run cs).1.abstractWheel.values := by
  induction cs generalizing r with
  | nil => simp [collect]
  | cons c cs ih =>
    simp only [List.flatMap_cons, run_cons, collect, ← Multiset.coe_add]
    rw [← add_assoc, values_call, add_assoc _ _ (↑(cs.flatMap Call.inserted) : Multiset V), ih]
    abel

/-- **waker は増えも消えもしない。** どの reactor の状態から、どの `insert_timer`、`remove_timer`、
`process_timers` の列を呼んでも、前から抽象の wheel にあった waker と `insert_timer` に渡した waker は、
`process_timers` が起こした waker、`process_timer_ops` の `remove` が落とした waker、`insert` が
同じ鍵の値を置き換えて落とした waker、まだ抽象の wheel にある waker に、重なりなく分かれる。
とくに、どの waker も、wheel にあった数と渡した数を合わせたより多くは起こされない。 -/
theorem wakers_conserved (r : Reactor w V) (cs : List (Call w V)) :
    (r.abstractWheel.values : Multiset V) + cs.flatMap Call.inserted =
        ((r.run cs).2.flatMap Reply.woken : Multiset V) + r.collect removedBy cs +
          r.collect replacedBy cs + (r.run cs).1.abstractWheel.values ∧
      ((r.run cs).2.flatMap Reply.woken : Multiset V) ≤
        (r.abstractWheel.values : Multiset V) + cs.flatMap Call.inserted := by
  refine ⟨values_run r cs, ?_⟩
  rw [values_run, add_assoc, add_assoc]
  exact Multiset.le_add_right _ _

/-- id が回らず、`remove_timer` に発行済みの id だけを渡す列では、`insert` は何も置き換えない。
`insert_timer` の鍵の id は `timer_id` で、wheel と待ち行列のどの鍵の id より大きいからである。 -/
theorem collect_replacedBy_eq_nil (cs : List (Call w V)) (hn : insertCount cs < 2 ^ w - 1)
    (hrem : RemovesIssued cs) : (new w V).collect replacedBy cs = [] := by
  induction cs using List.reverseRecOn with
  | nil => rfl
  | append_singleton cs c ih =>
    have hc : insertCount cs + (if c.isInsert then 1 else 0) < 2 ^ w - 1 :=
      insertCount_concat cs c ▸ hn
    have hcs : insertCount cs < 2 ^ w - 1 := by split at hc <;> omega
    have hI := issued_run cs hcs
    rw [collect_concat, ih hcs hrem.append, List.nil_append]
    cases c with
    | insertTimer d v =>
      cases hget : ((new w V).run cs).1.abstractWheel.get? ⟨d, ((new w V).run cs).1.timerId⟩ with
      | none => simp [replacedBy, hget]
      | some v' =>
        have hmem := (SortedMap.mem_iff_get? _ _ _).mpr hget
        have := (keys_run cs hcs hrem.append _ (mem_keys_of_abstractWheel hmem)).2
        have := hI.counter
        simp only at *
        omega
    | removeTimer d id => rfl
    | processTimers now => rfl

/-- **waker は黙って消えない。** `Reactor::new` から、`insert_timer` を `2^w - 1` 回より少なく呼び、
`remove_timer` には前の `insert_timer` が返した id だけを渡す列では、`insert_timer` に渡した waker は、
`process_timers` が起こした waker、`remove_timer` の op が落とした waker、まだ抽象の wheel にある waker に、
重なりなく分かれる。`insert` が生きている waker を置き換えて落とすことはない。 -/
theorem no_waker_lost (cs : List (Call w V)) (hn : insertCount cs < 2 ^ w - 1)
    (hrem : RemovesIssued cs) :
    (cs.flatMap Call.inserted : Multiset V) =
      (((new w V).run cs).2.flatMap Reply.woken : Multiset V) + (new w V).collect removedBy cs +
        ((new w V).run cs).1.abstractWheel.values := by
  have h := values_run (new w V) cs
  rw [collect_replacedBy_eq_nil cs hn hrem, abstractWheel_new] at h
  simpa using h

/-- 期限 10ns と 20ns の二つの `insert_timer`、返った id 2 での `remove_timer`、時刻 30ns の `process_timers`。 -/
def insertRemoveCalls : List (Call 64 Nat) :=
  [.insertTimer ⟨10, by decide, by decide⟩ 0, .insertTimer ⟨20, by decide, by decide⟩ 1,
    .removeTimer ⟨20, by decide, by decide⟩ 2, .processTimers ⟨⟨30, by decide, by decide⟩, by decide⟩]

theorem no_waker_lost_insert_remove :
    insertCount insertRemoveCalls < 2 ^ 64 - 1 ∧ RemovesIssued insertRemoveCalls ∧
      (insertRemoveCalls.flatMap Call.inserted : Multiset Nat) =
        (((new 64 Nat).run insertRemoveCalls).2.flatMap Reply.woken : Multiset Nat) +
          (new 64 Nat).collect removedBy insertRemoveCalls +
          ((new 64 Nat).run insertRemoveCalls).1.abstractWheel.values := by
  refine ⟨?hn, ?hrem, no_waker_lost _ ?hn ?hrem⟩
  case hn => decide
  case hrem =>
    intro pre d id post h
    rw [insertRemoveCalls] at h
    rcases pre with _ | ⟨x, _ | ⟨y, _ | ⟨z, _ | ⟨u, pre⟩⟩⟩⟩ <;> simp at h
    obtain ⟨rfl, rfl, ⟨-, rfl⟩, -⟩ := h
    simp [call, Reply.issued, new]

end Reactor

namespace Staging

namespace Event

/-- 起きたことが wheel に入れる値。 -/
def inserted : Event w V → List V
  | .op o => o.inserted
  | .split _ => []

/-- 起きたことで loop が起こす値：`split_off` の前の部分。`process_timers` はこれを `wakers` に足す。 -/
def woken (m : Wheel w V) : Event w V → List V
  | .op _ => []
  | .split k => (m.splitOff k).1.values

/-- 起きたことで wheel から出て落ちる値。 -/
def dropped (m : Wheel w V) : Event w V → List V
  | .op o => o.dropped m
  | .split _ => []

/-- 一つの出来事の出入り。 -/
theorem values_apply (m : Wheel w V) (e : Event w V) :
    (m.values : Multiset V) + e.inserted =
      (e.woken m : Multiset V) + e.dropped m + (e.apply m).values := by
  cases e with
  | op o => simpa [inserted, woken, dropped, Event.apply] using TimerOp.values_apply m o
  | split k =>
    rw [Multiset.coe_add, Multiset.coe_add, Multiset.coe_add, Multiset.coe_eq_coe]
    simpa [inserted, woken, dropped, Event.apply] using SortedMap.values_splitOff_perm m k

end Event

/-- 起きたことの列を wheel `m` から順に当てる間、各回の前の wheel で `f` が集める値。 -/
def collectEvents (f : Wheel w V → Event w V → List V) (m : Wheel w V) : List (Event w V) → List V
  | [] => []
  | e :: es => f m e ++ collectEvents f (e.apply m) es

/-- 起きたことの列の出入り。 -/
theorem values_replay (m : Wheel w V) (es : List (Event w V)) :
    (m.values : Multiset V) + es.flatMap Event.inserted =
      (collectEvents Event.woken m es : Multiset V) + collectEvents Event.dropped m es +
        (es.foldl Event.apply m).values := by
  induction es generalizing m with
  | nil => simp [collectEvents]
  | cons e es ih =>
    simp only [List.flatMap_cons, collectEvents, List.foldl_cons, ← Multiset.coe_add]
    rw [← add_assoc, Event.values_apply, add_assoc _ _ (↑(es.flatMap Event.inserted) : Multiset V), ih]
    abel

/-- 当てた op の入れる値は、起きたことの入れる値である。 -/
theorem flatMap_inserted_filterMap (es : List (Event w V)) :
    (es.filterMap Event.op?).flatMap TimerOp.inserted = es.flatMap Event.inserted := by
  induction es with
  | nil => rfl
  | cons e es ih => cases e <;> simp [Event.op?, Event.inserted, ih]

namespace Store

/-- **二段の置き場でも waker は増えも消えもしない。** 容量が正のどの待ち行列でも、どの数の producer の
`insert_timer` / `remove_timer` と loop の `process_timers` をどう挟んでも（満杯で取り出して積み直す道を
含む）、`process_timer_ops` が wheel に当てた `InsertTimer` の waker は、loop の `split_off` が起こした
waker、`process_timer_ops` が落とした waker、まだ wheel にある waker に、重なりなく分かれる。 -/
theorem store_wakers_conserved {s : Store w V} (h : Reachable s) :
    (((s.pushed.take s.applied).map Prod.snd).flatMap TimerOp.inserted : Multiset V) =
      (collectEvents Event.woken .empty s.history : Multiset V) +
        collectEvents Event.dropped .empty s.history + s.timers.values := by
  have hs := h.good
  have hr := values_replay (.empty : Wheel w V) s.history
  rw [← flatMap_inserted_filterMap, hs.ops, ← List.map_take] at hr
  rw [hs.timers, replay]
  simpa [SortedMap.values] using hr

/-- 一つの producer と loop で、積んで、`process_timers` で起こし、また積んで取り出した状態。 -/
theorem store_wakers_conserved_two_drains :
    ∃ s : Store 64 Nat, (init 1024 (by decide)).runActions
      [.call 0 (.insertTimer ⟨10, by decide, by decide⟩ 1 0), .push 0, .loopLock, .pop,
        .loopSplit ⟨⟨20, by decide, by decide⟩, by decide⟩,
        .call 0 (.insertTimer ⟨30, by decide, by decide⟩ 2 1), .push 0, .loopLock, .pop] = some s ∧
      Reachable s ∧
      (((s.pushed.take s.applied).map Prod.snd).flatMap TimerOp.inserted : Multiset Nat) =
        (collectEvents Event.woken .empty s.history : Multiset Nat) +
          collectEvents Event.dropped .empty s.history + s.timers.values := by
  refine Exists.imp (fun s hs => ⟨hs, ?_⟩) (Option.isSome_iff_exists.mp rfl)
  have hr := (Reachable.init _ _).runActions _ hs
  exact ⟨hr, store_wakers_conserved hr⟩

end Store

end Staging

end

end AsyncWinit
