import AsyncWinit.Reactor.Basic

/-!
# reactor の呼び出しの列

`insert_timer`、`remove_timer`、`process_timers` を任意の順に呼ぶ。`run` は呼び出しの列を
reactor に順に当て、各回の返り値を集める。

## 発火の順序

`fires_in_key_order`：ある時点の抽象の wheel に組 `a` と `b` があって鍵が `a < b` なら、
その後の呼び出しで両方が起こされるとき、`a` の値は `b` の値より先に出る（前の回か、同じ回の前）。
組は値で見分けるので、`a` と `b` の値は wheel の他の組になく、後から入れられないとする
（timer ごとに印を付けた値ならそうなる）。

証明は `process_timers` の一回ごとに見る。`b` が起こされる回には `a` の鍵も分け目より前にあり、
`a` がまだ wheel にあれば同じ回に鍵の順で先に出る。`a` がもう wheel にないなら、`a` の値は
二度と出ない。時計の読みが減らないことは使わない。

## 新しい id

`Reactor/Fresh.lean`：`Reactor::new` からの列で、`insert_timer` が `2^w - 1` 回より少ないなら、
返す id はどれも 0 でなく互いに違い、`insert_timer` の鍵は抽象の wheel にまだなく、`remove_timer` が
取り除く組は、その id を返した `insert_timer` が入れた組である。`remove_timer` に前の `insert_timer` が
返した id だけを渡すなら、wheel と待ち行列の鍵の id は `timer_id` より小さい。

待ち行列は先入れ先出しなので、`InsertTimer` が `process_timer_ops` で当たるときの wheel は、
積んだときの抽象の wheel である。よって「鍵がまだない」は、当たるときに置き換えが起きないことを言う。
-/

namespace AsyncWinit

/-- reactor を呼ぶ一回。 -/
inductive Call (w : Nat) (V : Type) where
  | insertTimer (deadline : Instant) (waker : V)
  | removeTimer (deadline : Instant) (id : BitVec w)
  | processTimers (now : ClockReading)

/-- 一回の返り値。 -/
inductive Reply (w : Nat) (V : Type) where
  /-- `insert_timer` が返した id。 -/
  | inserted (id : BitVec w)
  | removed
  /-- `process_timers` が `wakers` に足した値と、返した時刻。 -/
  | processed (wakers : List V) (deadline : Option Instant)

namespace Call

variable {w : Nat} {V : Type}

/-- `insert_timer` の呼び出しか。 -/
def isInsert : Call w V → Bool
  | insertTimer _ _ => true
  | _ => false

end Call

namespace Reply

variable {w : Nat} {V : Type}

/-- 返した id。 -/
def issued : Reply w V → List (BitVec w)
  | inserted id => [id]
  | _ => []

/-- 起こした値。 -/
def woken : Reply w V → List V
  | processed wakers _ => wakers
  | _ => []

end Reply

namespace Reactor

variable {w : Nat} {V : Type}

/-- 一回呼ぶ。 -/
def call (r : Reactor w V) : Call w V → Reactor w V × Reply w V
  | .insertTimer deadline waker =>
    let res := r.insertTimer deadline waker
    (res.1, .inserted res.2)
  | .removeTimer deadline id => (r.removeTimer deadline id, .removed)
  | .processTimers now =>
    let res := r.processTimers now
    (res.1, .processed res.2.1 res.2.2)

/-- 列を順に呼ぶ。 -/
def run (r : Reactor w V) : List (Call w V) → Reactor w V × List (Reply w V)
  | [] => (r, [])
  | c :: cs =>
    let s := r.call c
    let rest := s.1.run cs
    (rest.1, s.2 :: rest.2)

@[simp] theorem run_nil (r : Reactor w V) : r.run [] = (r, []) := rfl

@[simp] theorem run_cons (r : Reactor w V) (c : Call w V) (cs : List (Call w V)) :
    r.run (c :: cs) = (((r.call c).1.run cs).1, (r.call c).2 :: ((r.call c).1.run cs).2) := rfl

theorem run_append (r : Reactor w V) (cs cs' : List (Call w V)) :
    r.run (cs ++ cs') = (((r.run cs).1.run cs').1, (r.run cs).2 ++ ((r.run cs).1.run cs').2) := by
  induction cs generalizing r with
  | nil => rfl
  | cons c cs ih => simp [ih]

theorem run_concat (r : Reactor w V) (cs : List (Call w V)) (c : Call w V) :
    r.run (cs ++ [c]) = (((r.run cs).1.call c).1, (r.run cs).2 ++ [((r.run cs).1.call c).2]) := by
  simp [run_append]

/-! ## 一回の呼び出しと抽象の wheel -/

/-- 呼んだ後の抽象の wheel の組は、前からの組か、この回の `insert_timer` が入れた組である。 -/
theorem mem_call_abstractWheel {r : Reactor w V} {c : Call w V} {e : TimerKey w × V}
    (he : e ∈ (r.call c).1.abstractWheel.entries) :
    e ∈ r.abstractWheel.entries ∨ ∃ d, c = .insertTimer d e.2 ∧ e.1 = ⟨d, r.timerId⟩ := by
  cases c with
  | insertTimer d v =>
    simp only [call, abstractWheel_insertTimer, SortedMap.mem_insert] at he
    rcases he with rfl | ⟨-, he⟩
    · exact .inr ⟨d, rfl, rfl⟩
    · exact .inl he
  | removeTimer d id =>
    simp only [call, abstractWheel_removeTimer, SortedMap.mem_remove] at he
    exact .inl he.1
  | processTimers now =>
    simp only [call, abstractWheel_processTimers, SortedMap.mem_filterKeys] at he
    exact .inl he.1

/-- 起こした値は、呼んだときの抽象の wheel の値である。 -/
theorem mem_call_woken {r : Reactor w V} {c : Call w V} {v : V} (hv : v ∈ (r.call c).2.woken) :
    ∃ k, (k, v) ∈ r.abstractWheel.entries := by
  cases c with
  | processTimers now => exact mem_processTimers_out hv
  | _ => cases hv

/-- 一回で値 `v` を入れないなら、`v` を値に持つ組が一つだけ（鍵 `k`）という性質は残る。 -/
theorem call_unique {r : Reactor w V} {c : Call w V} {a : TimerKey w × V}
    (hu : ∀ e ∈ r.abstractWheel.entries, e.2 = a.2 → e = a) (hc : ∀ d, c ≠ .insertTimer d a.2) :
    ∀ e ∈ (r.call c).1.abstractWheel.entries, e.2 = a.2 → e = a := fun e he hea => by
  rcases mem_call_abstractWheel he with he | ⟨d, rfl, -⟩
  · exact hu e he hea
  · exact absurd (congrArg _ hea) (hc d)

/-! ## 発火の順序 -/

/-- 値 `v` が抽象の wheel になく、後から入れられもしないなら、`v` はもう起こされない。 -/
theorem not_mem_woken (v : V) :
    ∀ (cs : List (Call w V)) (r : Reactor w V), (∀ e ∈ r.abstractWheel.entries, e.2 ≠ v) →
      (∀ d, Call.insertTimer d v ∉ cs) → v ∉ (r.run cs).2.flatMap Reply.woken
  | [], _, _, _ => by simp
  | c :: cs, r, hv, hins => by
    have hnew : ∀ e ∈ (r.call c).1.abstractWheel.entries, e.2 ≠ v := fun e he hev => by
      rcases mem_call_abstractWheel he with he | ⟨d, rfl, -⟩
      · exact hv e he hev
      · exact hins d (hev ▸ .head _)
    simp only [run_cons, List.flatMap_cons, List.mem_append, not_or]
    refine ⟨fun h => ?_, not_mem_woken v cs _ hnew fun d h => hins d (.tail _ h)⟩
    obtain ⟨k, hk⟩ := mem_call_woken h
    exact hv _ hk rfl

/-- 値で見分けられる組 `a` が wheel にないなら、その値はもう起こされない。 -/
theorem mem_of_mem_woken {r : Reactor w V} {cs : List (Call w V)} {a : TimerKey w × V}
    (hu : ∀ e ∈ r.abstractWheel.entries, e.2 = a.2 → e = a)
    (hins : ∀ d, Call.insertTimer d a.2 ∉ cs) (hw : a.2 ∈ (r.run cs).2.flatMap Reply.woken) :
    a ∈ r.abstractWheel.entries := by
  by_contra ha
  exact not_mem_woken a.2 cs r (fun e he hea => ha (hu e he hea ▸ he)) hins hw

/-- `process_timers` の一回で、鍵の小さい組は大きい組より先に出る。大きい組が出るなら小さい組も出る。 -/
theorem processTimers_pair {r : Reactor w V} {now : ClockReading} {a b : TimerKey w × V}
    (ha : a ∈ r.abstractWheel.entries) (hb : b ∈ r.abstractWheel.entries) (hlt : a.1 < b.1)
    (hbk : b.1 < ⟨now.addOneNano, 0⟩) : [a.2, b.2].Sublist (r.processTimers now).2.1 := by
  have hak : a.1 < ⟨now.addOneNano, 0⟩ := hlt.trans hbk
  rw [processTimers_out, SortedMap.values, SortedMap.filterKeys_entries]
  have := ((SortedMap.pair_sublist ha hb hlt).filter fun e => decide (e.1 < ⟨now.addOneNano, 0⟩)).map
    Prod.snd
  rw [List.filter_cons_of_pos (by exact decide_eq_true hak),
    List.filter_cons_of_pos (by exact decide_eq_true hbk), List.filter_nil] at this
  exact this

/-- 分け目より後の鍵の組の値は、値で見分けられるなら、その回には出ない。 -/
theorem not_mem_processTimers_out {r : Reactor w V} {now : ClockReading} {a : TimerKey w × V}
    (hu : ∀ e ∈ r.abstractWheel.entries, e.2 = a.2 → e = a) (hak : ¬ a.1 < ⟨now.addOneNano, 0⟩) :
    a.2 ∉ (r.processTimers now).2.1 := fun h => by
  rw [processTimers_out, SortedMap.values, List.mem_map] at h
  obtain ⟨e, he, hea⟩ := h
  rw [SortedMap.mem_filterKeys] at he
  exact hak (hu e he.1 hea ▸ he.2)

/-- 鍵の順に起こす：起こした値の列を `f` で写しても、`a` の値の像は `b` の値の像より前に出る。
`fires_in_key_order` は `f = id` のとき、`fires_in_key_order_erased`（`Timer/Erasure.lean`）は
印を消す写像のときである。 -/
theorem woken_map_sublist {W : Type} (f : V → W) :
    ∀ (cs : List (Call w V)) (r : Reactor w V) {a b : TimerKey w × V},
      a ∈ r.abstractWheel.entries → b ∈ r.abstractWheel.entries → a.1 < b.1 →
      (∀ e ∈ r.abstractWheel.entries, e.2 = a.2 → e = a) →
      (∀ e ∈ r.abstractWheel.entries, e.2 = b.2 → e = b) →
      (∀ d v, Call.insertTimer d v ∈ cs → v ≠ a.2 ∧ v ≠ b.2) →
      a.2 ∈ (r.run cs).2.flatMap Reply.woken → b.2 ∈ (r.run cs).2.flatMap Reply.woken →
      [f a.2, f b.2].Sublist (((r.run cs).2.flatMap Reply.woken).map f)
  | [], _, _, _, _, _, _, _, _, _, hwa, _ => by simp at hwa
  | c :: cs, r, a, b, ha, hb, hlt, hua, hub, hins, hwa, hwb => by
    have hc : ∀ d v, c = .insertTimer d v → v ≠ a.2 ∧ v ≠ b.2 := fun d v h => hins d v (h ▸ .head _)
    have hins' : ∀ d v, Call.insertTimer d v ∈ cs → v ≠ a.2 ∧ v ≠ b.2 :=
      fun d v h => hins d v (.tail _ h)
    have hua' := call_unique hua fun d h => (hc d _ h).1 rfl
    have hub' := call_unique hub fun d h => (hc d _ h).2 rfl
    simp only [run_cons, List.flatMap_cons, List.mem_append, List.map_append] at hwa hwb ⊢
    -- 後の回で出る組は、この回の後も wheel にある（`mem_of_mem_woken`）
    have hia : ∀ d, Call.insertTimer d a.2 ∉ cs := fun d h => (hins' d _ h).1 rfl
    have hib : ∀ d, Call.insertTimer d b.2 ∉ cs := fun d h => (hins' d _ h).2 rfl
    cases c with
    | processTimers now =>
      simp only [call, Reply.woken] at hwa hwb ⊢
      by_cases hbk : b.1 < ⟨now.addOneNano, 0⟩
      · exact ((processTimers_pair ha hb hlt hbk).map f).trans (List.sublist_append_left _ _)
      · have hwb' := hwb.resolve_left (not_mem_processTimers_out hub hbk)
        by_cases hak : a.1 < ⟨now.addOneNano, 0⟩
        · have hfa : a.2 ∈ (r.processTimers now).2.1 := by
            rw [processTimers_out, SortedMap.values, List.mem_map]
            exact ⟨a, (SortedMap.mem_filterKeys _ _ _).mpr ⟨ha, hak⟩, rfl⟩
          exact List.Sublist.append (List.singleton_sublist.mpr (List.mem_map_of_mem f hfa))
            (List.singleton_sublist.mpr (List.mem_map_of_mem f hwb'))
        · have hwa' := hwa.resolve_left (not_mem_processTimers_out hua hak)
          exact (woken_map_sublist f cs _ (mem_of_mem_woken hua' hia hwa') (mem_of_mem_woken hub' hib hwb')
            hlt hua' hub' hins' hwa' hwb').trans (List.sublist_append_right _ _)
    | insertTimer d v | removeTimer d id =>
      simp only [call, Reply.woken, List.map_nil, List.nil_append, List.not_mem_nil, false_or] at hwa hwb ⊢
      exact woken_map_sublist f cs _ (mem_of_mem_woken hua' hia hwa) (mem_of_mem_woken hub' hib hwb) hlt
        hua' hub' hins' hwa hwb

/-- **発火の順序。** 抽象の wheel に組 `a` と `b` があり、鍵が `a < b` で、二つの値がそれぞれ
wheel のその組だけにあって後から入れられないなら、その後の呼び出しの列で両方の値が起こされるとき、
`a` の値は `b` の値より前に出る（前の回か、同じ回の前）。どの reactor の状態から始めてもよく、
`process_timers` の読む時刻にも条件はない。 -/
theorem fires_in_key_order :
    ∀ (cs : List (Call w V)) (r : Reactor w V) {a b : TimerKey w × V},
      a ∈ r.abstractWheel.entries → b ∈ r.abstractWheel.entries → a.1 < b.1 →
      (∀ e ∈ r.abstractWheel.entries, e.2 = a.2 → e = a) →
      (∀ e ∈ r.abstractWheel.entries, e.2 = b.2 → e = b) →
      (∀ d v, Call.insertTimer d v ∈ cs → v ≠ a.2 ∧ v ≠ b.2) →
      a.2 ∈ (r.run cs).2.flatMap Reply.woken → b.2 ∈ (r.run cs).2.flatMap Reply.woken →
      [a.2, b.2].Sublist ((r.run cs).2.flatMap Reply.woken)
 := by
  intro cs r a b ha hb hlt hua hub hins hwa hwb
  simpa using woken_map_sublist id cs r ha hb hlt hua hub hins hwa hwb

/-- 期限 10ns。 -/
def tenNanos : Instant := ⟨10, by decide, by decide⟩

/-- 期限 20ns。 -/
def twentyNanos : Instant := ⟨20, by decide, by decide⟩

/-- `Reactor::new` に期限 10ns と 20ns の `insert_timer` を順に呼んだ reactor。鍵は `(10ns, 1)` と
`(20ns, 2)` である。 -/
def twoTimers (v₁ v₂ : V) : Reactor 64 V :=
  ((new 64 V).run [.insertTimer tenNanos v₁, .insertTimer twentyNanos v₂]).1

/-- 時刻 30ns の `process_timers`。 -/
def processAt30 : List (Call 64 V) := [.processTimers ⟨⟨30, by decide, by decide⟩, by decide⟩]

theorem twoTimers_entries (v₁ v₂ : V) :
    (twoTimers v₁ v₂).abstractWheel.entries = [(⟨tenNanos, 1⟩, v₁), (⟨twentyNanos, 2⟩, v₂)] := by
  simp [twoTimers, call, new]
  rfl

theorem twoTimers_woken (v₁ v₂ : V) :
    ((twoTimers v₁ v₂).run processAt30).2.flatMap Reply.woken = [v₁, v₂] := by
  simp [processAt30, call, Reply.woken, processTimers_out, twoTimers_entries, SortedMap.values]
  rfl

/-- `twoTimers 0 1` に時刻 30ns の `process_timers` を呼ぶと、両方の値を鍵の順に起こす。 -/
theorem fires_in_key_order_both :
    ((⟨tenNanos, 1⟩, 0) : TimerKey 64 × Nat) ∈ (twoTimers 0 1).abstractWheel.entries ∧
      ((⟨twentyNanos, 2⟩, 1) : TimerKey 64 × Nat) ∈ (twoTimers 0 1).abstractWheel.entries ∧
      (⟨tenNanos, 1⟩ : TimerKey 64) < ⟨twentyNanos, 2⟩ ∧
      (∀ e ∈ (twoTimers 0 1).abstractWheel.entries, e.2 = 0 → e = (⟨tenNanos, 1⟩, 0)) ∧
      (∀ e ∈ (twoTimers 0 1).abstractWheel.entries, e.2 = 1 → e = (⟨twentyNanos, 2⟩, 1)) ∧
      (∀ d v, Call.insertTimer d v ∈ (processAt30 : List (Call 64 Nat)) → v ≠ 0 ∧ v ≠ 1) ∧
      0 ∈ ((twoTimers 0 1).run processAt30).2.flatMap Reply.woken ∧
      1 ∈ ((twoTimers 0 1).run processAt30).2.flatMap Reply.woken ∧
      [0, 1].Sublist (((twoTimers 0 1).run processAt30).2.flatMap Reply.woken) := by
  refine ⟨?ha, ?hb, ?hlt, ?hua, ?hub, ?hins, ?hwa, ?hwb,
    fires_in_key_order _ _ ?ha ?hb ?hlt ?hua ?hub ?hins ?hwa ?hwb⟩
  case hlt => simp [TimerKey.lt_iff, tenNanos, twentyNanos]
  case hins => simp [processAt30]
  case hua =>
    rw [twoTimers_entries]
    rintro e (_ | ⟨_, _ | ⟨_, ⟨⟩⟩⟩) h
    · rfl
    · exact absurd h (by decide)
  case hub =>
    rw [twoTimers_entries]
    rintro e (_ | ⟨_, _ | ⟨_, ⟨⟩⟩⟩) h
    · exact absurd h (by decide)
    · rfl
  case ha | hb => simp [twoTimers_entries]
  case hwa | hwb => simp [twoTimers_woken]

end Reactor

end AsyncWinit
