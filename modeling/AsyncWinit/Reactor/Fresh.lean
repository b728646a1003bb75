import AsyncWinit.Reactor.Run

/-!
# 新しい id

`insert_timer` は `timer_id.fetch_add(1)` の値を id にする。`Reactor::new` の `timer_id` は 1 なので、
`k` 回目の `insert_timer` は id `k` を返す。`usize` が回らないうちは、どの id も 0 でなく、互いに違う。

## 不変条件

`Issued cs` は `Reactor::new` から列 `cs` を呼んだ後の状態について言う（`n` は `insert_timer` の回数）。
`remove_timer` にどの id を渡しても成り立つ。

* `timer_id` は `n + 1`。
* 返した id は順に `1, 2, …, n`。
* 抽象の wheel のどの組も、ある `insert_timer` が入れた組で、鍵の id はその回が返した id。

`freshIds_run` はこれから `FreshIds` を導く：返す id は 0 でなく互いに違い、`insert_timer` の鍵は
抽象の wheel にまだなく、`remove_timer` が取り除く組は、その id を返した `insert_timer` が入れた組である。

`remove_timer` が積む `RemoveTimer` の id は呼んだ側が渡す。待ち行列の鍵の id も `timer_id` より小さい
こと（`KeysBelow`）には、前の `insert_timer` が返した id だけを渡すこと（`RemovesIssued`）が要る。
`[remove_timer(d, 5)]` では待ち行列の鍵の id 5 が `timer_id` の 1 を超える。`Timer` は `id_and_waker` に
持つ id だけを渡すので、`Timer` の呼ぶ列はそうなっている（`Timer/Calls.lean`）。
-/

namespace AsyncWinit

namespace Reactor

variable {w : Nat} {V : Type}

/-- wheel の鍵と、待ち行列に積まれた操作の鍵。 -/
def keys (r : Reactor w V) : List (TimerKey w) :=
  r.timers.entries.map Prod.fst ++ r.timerOpQueue.items.map TimerOp.key

/-- 抽象の wheel の鍵は、wheel か待ち行列にある。 -/
theorem mem_keys_of_abstractWheel {r : Reactor w V} {e : TimerKey w × V}
    (he : e ∈ r.abstractWheel.entries) : e.1 ∈ r.keys := by
  rcases mem_applyOps he with he | he
  · exact List.mem_append_left _ (List.mem_map_of_mem _ he)
  · exact List.mem_append_right _ (List.mem_map.mpr ⟨_, he, rfl⟩)

theorem drainQueue_timers (r : Reactor w V) : r.drainQueue.timers = r.abstractWheel := by
  simp [drainQueue, processTimerOps_eq, abstractWheel]

/-- 積み直しの後の鍵は、前からの鍵か、積んだ操作の鍵である。 -/
theorem mem_keys_pushOp {r : Reactor w V} {op : TimerOp w V} {k : TimerKey w}
    (hk : k ∈ (r.pushOp op).keys) : k ∈ r.keys ∨ k = op.key := by
  rcases pushOp_cases r op with ⟨q, hq, h⟩ | ⟨q, hq, h⟩ <;> rw [h] at hk
  · simp only [keys, hq, List.map_append, List.map_cons, List.map_nil, List.mem_append,
      List.mem_singleton] at hk ⊢
    tauto
  · simp only [keys, hq, drainQueue_timers, List.map_cons, List.map_nil, List.mem_append,
      List.mem_singleton, List.mem_map] at hk
    rcases hk with ⟨e, he, rfl⟩ | hk
    · exact .inl (mem_keys_of_abstractWheel he)
    · exact .inr hk

/-- `process_timers` の後の鍵は、前からの鍵である。 -/
theorem mem_keys_processTimers {r : Reactor w V} {now : ClockReading} {k : TimerKey w}
    (hk : k ∈ (r.processTimers now).1.keys) : k ∈ r.keys := by
  simp only [keys, processTimers_timers, List.mem_append, List.mem_map,
    SortedMap.mem_filterKeys] at hk
  rcases hk with ⟨e, ⟨he, -⟩, rfl⟩ | ⟨op, hop, -⟩
  · exact mem_keys_of_abstractWheel he
  · simp [processTimers, processTimerOps_eq] at hop

/-- 一回呼んだ後の鍵は、前からの鍵か、この回が積んだ操作の鍵である。 -/
theorem mem_keys_call {r : Reactor w V} {c : Call w V} {k : TimerKey w}
    (hk : k ∈ (r.call c).1.keys) :
    k ∈ r.keys ∨ (∃ d v, c = .insertTimer d v ∧ k = ⟨d, r.timerId⟩) ∨
      ∃ d id, c = .removeTimer d id ∧ k = ⟨d, id⟩ := by
  cases c with
  | insertTimer d v =>
    rcases mem_keys_pushOp hk with hk | rfl
    · exact .inl hk
    · exact .inr (.inl ⟨d, v, rfl, rfl⟩)
  | removeTimer d id =>
    rcases mem_keys_pushOp hk with hk | rfl
    · exact .inl hk
    · exact .inr (.inr ⟨d, id, rfl, rfl⟩)
  | processTimers now => exact .inl (mem_keys_processTimers hk)

@[simp] theorem timerId_call (r : Reactor w V) (c : Call w V) :
    (r.call c).1.timerId = if c.isInsert then r.timerId + 1 else r.timerId := by
  cases c <;> simp [call, Call.isInsert, processTimers]

/-! ## 列の上の不変条件 -/

/-- `insert_timer` の回数。 -/
def insertCount (cs : List (Call w V)) : Nat := cs.countP Call.isInsert

/-- `remove_timer` には、それより前の `insert_timer` が返した id だけを渡す。 -/
def RemovesIssued (cs : List (Call w V)) : Prop :=
  ∀ pre d id post, cs = pre ++ .removeTimer d id :: post →
    id ∈ ((new w V).run pre).2.flatMap Reply.issued

/-- `Reactor::new` から列 `cs` を呼んだ後の id と抽象の wheel。`remove_timer` にどの id を渡しても言える。 -/
structure Issued (cs : List (Call w V)) : Prop where
  counter : ((new w V).run cs).1.timerId.toNat = insertCount cs + 1
  issued : ((new w V).run cs).2.flatMap Reply.issued =
    (List.range (insertCount cs)).map fun k => BitVec.ofNat w (k + 1)
  /-- 抽象の wheel の組は、ある `insert_timer` が入れた組で、鍵の id はその回が返した id。 -/
  origin : ∀ e ∈ ((new w V).run cs).1.abstractWheel.entries, ∃ pre post,
    cs = pre ++ .insertTimer e.1.deadline e.2 :: post ∧ ((new w V).run pre).1.timerId = e.1.id

theorem insertCount_concat (cs : List (Call w V)) (c : Call w V) :
    insertCount (cs ++ [c]) = insertCount cs + if c.isInsert then 1 else 0 := by
  cases c <;> simp [insertCount, List.countP_append, Call.isInsert]

theorem insertCount_le_append (cs cs' : List (Call w V)) : insertCount cs ≤ insertCount (cs ++ cs') :=
  (List.sublist_append_left cs cs').countP_le _

/-- 回らない範囲の `BitVec.ofNat` は値をそのまま持つ。 -/
theorem toNat_ofNat_of_lt {n : Nat} (h : n < 2 ^ w) : (BitVec.ofNat w n).toNat = n := by
  rw [BitVec.toNat_ofNat, Nat.mod_eq_of_lt h]

/-- 回らない範囲の `fetch_add(1)` は値に 1 を足す。 -/
theorem toNat_add_one_of_lt {x : BitVec w} (h : x.toNat + 1 < 2 ^ w) : (x + 1).toNat = x.toNat + 1 := by
  rw [BitVec.toNat_add, BitVec.ofNat_eq_ofNat, BitVec.toNat_ofNat,
    Nat.mod_eq_of_lt (show 1 < 2 ^ w by omega), Nat.mod_eq_of_lt h]

/-- 回らない範囲で `1, 2, …, n` と数えた id は互いに違う。 -/
theorem nodup_map_ofNat_succ {n : Nat} (h : n < 2 ^ w) :
    ((List.range n).map fun k => BitVec.ofNat w (k + 1)).Nodup := by
  refine List.Nodup.map_on (fun x hx y hy hxy => ?_) (List.nodup_range _)
  have := congrArg BitVec.toNat hxy
  rw [toNat_ofNat_of_lt (by have := List.mem_range.mp hx; omega),
    toNat_ofNat_of_lt (by have := List.mem_range.mp hy; omega)] at this
  omega

/-- 回らない範囲で `1, 2, …, n` と数えた id は 0 でない。 -/
theorem ne_zero_of_mem_map_ofNat_succ {n : Nat} (h : n < 2 ^ w) {id : BitVec w}
    (hid : id ∈ (List.range n).map fun k => BitVec.ofNat w (k + 1)) : id ≠ 0 := by
  rintro rfl
  obtain ⟨j, hj, hz⟩ := List.mem_map.mp hid
  have := congrArg BitVec.toNat hz
  rw [toNat_ofNat_of_lt (by have := List.mem_range.mp hj; omega)] at this
  simp at this

/-- 一回呼んだ後の抽象の wheel の組の出どころ。 -/
theorem origin_concat {pre : List (Call w V)} {c : Call w V}
    (hI : ∀ e ∈ ((new w V).run pre).1.abstractWheel.entries, ∃ p q,
      pre = p ++ .insertTimer e.1.deadline e.2 :: q ∧ ((new w V).run p).1.timerId = e.1.id) :
    ∀ e ∈ ((new w V).run (pre ++ [c])).1.abstractWheel.entries, ∃ p q,
      pre ++ [c] = p ++ .insertTimer e.1.deadline e.2 :: q ∧ ((new w V).run p).1.timerId = e.1.id := by
  intro e he
  rw [run_concat] at he
  rcases mem_call_abstractWheel he with he | ⟨d, rfl, hk⟩
  · obtain ⟨p, q, rfl, hid⟩ := hI e he
    exact ⟨p, q ++ [c], by simp, hid⟩
  · exact ⟨pre, [], by rw [hk], by rw [hk]⟩

/-- **一回ごとに保たれる。** -/
theorem Issued.concat {pre : List (Call w V)} (hI : Issued pre) {c : Call w V}
    (hn : insertCount (pre ++ [c]) < 2 ^ w - 1) : Issued (pre ++ [c]) := by
  rw [insertCount_concat] at hn
  have hcnt := hI.counter
  have hlt : insertCount pre + 1 < 2 ^ w := by split at hn <;> omega
  have hid : ((new w V).run pre).1.timerId = BitVec.ofNat w (insertCount pre + 1) :=
    BitVec.eq_of_toNat_eq (by rw [hcnt, toNat_ofNat_of_lt hlt])
  refine ⟨?_, ?_, origin_concat hI.origin⟩
  · rw [run_concat, timerId_call, insertCount_concat]
    cases hi : c.isInsert
    · simpa using hcnt
    · simp only [hi, if_true] at hn ⊢
      rw [toNat_add_one_of_lt (by omega), hcnt]
  · rw [run_concat, List.flatMap_append, hI.issued, insertCount_concat]
    cases c <;> simp [call, Reply.issued, Call.isInsert, List.range_succ, hid]

theorem issued_run (cs : List (Call w V)) (hn : insertCount cs < 2 ^ w - 1) : Issued cs := by
  induction cs using List.reverseRecOn with
  | nil =>
    have h1 : 1 % 2 ^ w = 1 :=
      Nat.mod_eq_of_lt (by simp only [insertCount, List.countP_nil] at hn; omega)
    exact ⟨by simp [new, insertCount, h1], by simp [insertCount], by simp⟩
  | append_singleton cs c ih =>
    exact (ih (lt_of_le_of_lt (insertCount_le_append cs [c]) hn)).concat hn

/-- 前半の列も条件を満たす。 -/
theorem RemovesIssued.append {cs cs' : List (Call w V)} (h : RemovesIssued (cs ++ cs')) :
    RemovesIssued cs := fun pre d id post hcs => h pre d id (post ++ cs') (by simp [hcs])

/-- 後ろに足す列の `remove_timer` が、前の列の返した id だけを渡すなら、条件は続く。 -/
theorem RemovesIssued.append_of {cs cs' : List (Call w V)} (h : RemovesIssued cs)
    (h' : ∀ d id, .removeTimer d id ∈ cs' → id ∈ ((new w V).run cs).2.flatMap Reply.issued) :
    RemovesIssued (cs ++ cs') := by
  intro pre d id post hcs
  rcases List.append_eq_append_iff.mp hcs with ⟨a, rfl, rfl⟩ | ⟨_ | ⟨x, c⟩, rfl, hc⟩
  · rw [run_append, List.flatMap_append]
    exact List.mem_append_left _ (h' d id (by simp))
  · simp only [List.nil_append] at hc
    exact List.append_nil pre ▸ h' d id (hc ▸ List.mem_cons_self _ _)
  · obtain ⟨rfl, rfl⟩ := List.cons_eq_cons.mp hc
    exact h pre d id c rfl

/-- `remove_timer` が発行済みの id だけを渡すなら、wheel と待ち行列の鍵の id は 1 以上、
`insert_timer` の回数以下である。 -/
theorem keys_run (cs : List (Call w V)) (hn : insertCount cs < 2 ^ w - 1) (hrem : RemovesIssued cs) :
    ∀ k ∈ ((new w V).run cs).1.keys, 0 < k.id.toNat ∧ k.id.toNat ≤ insertCount cs := by
  induction cs using List.reverseRecOn with
  | nil => simp [keys, new, BoundedQueue.bounded]
  | append_singleton cs c ih =>
    have hle := insertCount_le_append cs [c]
    have hI := issued_run cs (by omega)
    intro k hk
    rw [run_concat] at hk
    rw [insertCount_concat]
    rcases mem_keys_call hk with hk | ⟨d, v, rfl, rfl⟩ | ⟨d, id, rfl, rfl⟩
    · have := ih (by omega) hrem.append k hk
      omega
    · simp only [Call.isInsert, if_true, hI.counter]
      omega
    · obtain ⟨j, hj, rfl⟩ := List.mem_map.mp (hI.issued ▸ hrem cs d id [] rfl)
      have := List.mem_range.mp hj
      simp only [Call.isInsert]
      rw [toNat_ofNat_of_lt (by omega)]
      omega

/-- `Reactor::new` から呼んだ列について、`remove_timer` にどの id を渡しても言えること。 -/
structure FreshIds (cs : List (Call w V)) : Prop where
  /-- 返した id は互いに違う。 -/
  nodup : (((new w V).run cs).2.flatMap Reply.issued).Nodup
  /-- 返した id は 0 でない。 -/
  ne_zero : ∀ id ∈ ((new w V).run cs).2.flatMap Reply.issued, id ≠ 0
  /-- `insert_timer` が積む鍵の id は、その時の抽象の wheel のどの組の id でもない。 -/
  insertFresh : ∀ pre d v post, cs = pre ++ .insertTimer d v :: post →
    ∀ e ∈ ((new w V).run pre).1.abstractWheel.entries, e.1.id ≠ ((new w V).run pre).1.timerId
  /-- `remove_timer(d, id)` が取り除く組は、id `id` を返した `insert_timer(d, v)` が入れた組である。 -/
  removeOwn : ∀ pre d id post, cs = pre ++ .removeTimer d id :: post →
    ∀ v, (⟨d, id⟩, v) ∈ ((new w V).run pre).1.abstractWheel.entries →
      ∃ pre' post', pre = pre' ++ .insertTimer d v :: post' ∧ ((new w V).run pre').1.timerId = id

/-- 途中のどの時点でも、wheel と待ち行列の鍵の id は `timer_id` より小さい。 -/
def KeysBelow (cs : List (Call w V)) : Prop :=
  ∀ pre post, cs = pre ++ post →
    ∀ k ∈ ((new w V).run pre).1.keys, k.id.toNat < ((new w V).run pre).1.timerId.toNat

/-- id が回らない列では、返す id はどれも 0 でなく互いに違い、`insert_timer` の鍵は抽象の wheel に
まだなく、`remove_timer` が取り除く組はその id を返した `insert_timer` が入れた組である。
`remove_timer` にどの id を渡しても言える。 -/
theorem freshIds_run (cs : List (Call w V)) (hn : insertCount cs < 2 ^ w - 1) : FreshIds cs := by
  have hpre : ∀ pre post, cs = pre ++ post → Issued pre := fun pre post h =>
    issued_run pre (lt_of_le_of_lt (insertCount_le_append pre post) (h ▸ hn))
  have hI := issued_run cs hn
  refine ⟨?_, fun id h => ?_, fun pre d v post h e he => ?_, fun pre d id post h v he => (hpre pre _ h).origin _ he⟩
  · rw [hI.issued]
    exact nodup_map_ofNat_succ (by omega)
  · rw [hI.issued] at h
    exact ne_zero_of_mem_map_ofNat_succ (by omega) h
  · obtain ⟨pre', post', rfl, hid⟩ := (hpre _ _ h).origin e he
    have hcount : insertCount pre' < insertCount (pre' ++ .insertTimer e.1.deadline e.2 :: post') := by
      simp [insertCount, List.countP_append, Call.isInsert]
    have h' := (hpre pre' _ (h.trans (List.append_assoc _ _ _))).counter
    intro heq
    have := congrArg BitVec.toNat (hid.trans heq)
    rw [h', (hpre _ _ h).counter] at this
    omega

/-- `remove_timer` が発行済みの id だけを渡す列では、途中のどの時点でも、wheel と待ち行列の鍵の id は
`timer_id` より小さい。 -/
theorem keysBelow_run (cs : List (Call w V)) (hn : insertCount cs < 2 ^ w - 1)
    (hrem : RemovesIssued cs) : KeysBelow cs := by
  rintro pre post rfl k hk
  have hle := insertCount_le_append pre post
  have := keys_run pre (by omega) hrem.append k hk
  rw [(issued_run pre (by omega)).counter]
  omega

end Reactor

end AsyncWinit
