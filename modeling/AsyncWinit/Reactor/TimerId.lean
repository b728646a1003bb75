import AsyncWinit.Reactor.Staging
import AsyncWinit.Timer.Calls

/-!
# 並行に呼んでも id は新しい

`Reactor/Staging.lean` の置き場の `call` は、積む操作をそのまま受け取る。ここでは `insert_timer` の
`timer_id.fetch_add(1)` を加える。`fetch_add` は一つの原子的な一歩で、`Relaxed` でも同じ値を二度返す
ことはない。`insert_timer` の一歩は、`fetch_add` で id を取り、`InsertTimer(deadline, id, waker)` を
手元に持つ。積むのは後の `push` の一歩である。

`remove_timer` を呼ぶのは `Timer` だけで、渡すのは `insert_timer` が返した id である
（`Timer/Calls.lean` の `removesIssued_callsRun`）。よって `remove_timer` の一歩は、返した id だけを受け取る。

## 不変条件

`Fresh` は、`insert_timer` の回数が `2^w - 1` より少ない届く状態について言う。

* `timer_id` は返した id の数に 1 を足したもので、返した id は順に `1, 2, …, n`。
* 積めた操作と、producer の手元の操作の鍵の id は `timer_id` より小さい。
* 積めた `InsertTimer` の id は互いに違い、手元の `InsertTimer` の id は、積めたどの `InsertTimer` の
  id でもなく、他の producer の手元にもない。
* `process_timer_ops` が当てた `InsertTimer` の鍵は、当てた時の wheel になかった。

`call` 以外の一歩が幽霊の記録にすることは `step_ghost` 一つにまとめ、不変条件の一歩の補題はそれを使う。

## 結果

* `idsFresh_of_reachable` — どの数の producer がどう挟んで呼んでも、返す id は 0 でなく互いに違い、
  wheel、待ち行列、手元の操作の鍵の id は `timer_id` より小さく、`insert` は何も置き換えず、
  `RemoveTimer` が取り除く組は同じ鍵の `InsertTimer` が入れた組である。
* `fresh_ids` — 素の呼び出しの列、timer が呼ぶ列、並行の置き場の三つで、id は新しい。
-/

namespace AsyncWinit

namespace TimerOp

variable {w : Nat} {V : Type}

/-- `InsertTimer` なら、その id。 -/
def insertId? : TimerOp w V → Option (BitVec w)
  | insertTimer _ id _ => some id
  | removeTimer _ _ => none

theorem key_id_of_insertId? {o : TimerOp w V} {i : BitVec w} (h : o.insertId? = some i) :
    o.key.id = i := by
  cases o <;> simp_all [insertId?, key]

end TimerOp

namespace Staging

variable {w : Nat} {V : Type}

/-- 起きたことを当てた後の組は、前からの組か、起きたことの中の `InsertTimer` が入れた組である。 -/
theorem mem_foldl_apply {es : List (Event w V)} {m : Wheel w V} {e : TimerKey w × V}
    (he : e ∈ (es.foldl Event.apply m).entries) :
    e ∈ m.entries ∨ Event.op (.insertTimer e.1.deadline e.1.id e.2) ∈ es := by
  induction es generalizing m with
  | nil => exact .inl he
  | cons ev es ih =>
    rcases ih he with he | he
    · cases ev with
      | op o =>
        have he : e ∈ (applyOps [o] m).entries := he
        rcases mem_applyOps he with he | he
        · exact .inl he
        · exact .inr (List.mem_singleton.mp he ▸ .head _)
      | split k => exact .inl ((SortedMap.mem_filterKeys _ _ _).mp he).1
    · exact .inr (.tail _ he)

theorem mem_replay {es : List (Event w V)} {e : TimerKey w × V} (he : e ∈ (replay es).entries) :
    Event.op (.insertTimer e.1.deadline e.1.id e.2) ∈ es :=
  (mem_foldl_apply he).resolve_left (List.not_mem_nil _)

/-- 末尾に一つ足した列の分け方は、前の列の分け方か、足した一つで終わる分け方である。 -/
theorem eq_append_cons_of_concat {α : Type} {es pre post : List α} {e x : α}
    (h : es ++ [e] = pre ++ x :: post) : (∃ post', es = pre ++ x :: post') ∨ (pre = es ∧ x = e) := by
  rcases List.eq_nil_or_concat post with rfl | ⟨post', y, rfl⟩
  · obtain ⟨h1, h2⟩ := List.append_inj' h rfl
    exact .inr ⟨h1.symm, (List.singleton_inj.mp h2).symm⟩
  · rw [List.concat_eq_append, ← List.cons_append, ← List.append_assoc] at h
    exact .inl ⟨post', (List.append_inj' h rfl).1⟩

/-- 重なりのない id の列を前後に分けると、同じ id は両方に出ない。 -/
theorem insertId_take_drop {l : List (TimerOp w V)} (hl : (l.filterMap TimerOp.insertId?).Nodup)
    (n : Nat) {x y : TimerOp w V} (hx : x ∈ l.take n) (hy : y ∈ l.drop n) {i : BitVec w}
    (hxi : x.insertId? = some i) (hyi : y.insertId? = some i) : False := by
  rw [← List.take_append_drop n l, List.filterMap_append] at hl
  exact List.disjoint_of_nodup_append hl (List.mem_filterMap.mpr ⟨x, hx, hxi⟩)
    (List.mem_filterMap.mpr ⟨y, hy, hyi⟩)

namespace Store

variable {s s' : Store w V}

/-- `insert_timer` / `remove_timer` の一歩は、休んでいる producer の手元に操作を置くだけである。 -/
theorem step_call_eq {p : Nat} {op : TimerOp w V} (h : s.step (.call p op) = some s') :
    s.producers p = .idle ∧ s' = { s with
      producers := Function.update s.producers p (.pushing op),
      issued := Function.update s.issued p (s.issued p ++ [op]) } := by
  simp only [step] at h
  split at h
  · next hp => exact ⟨hp, (Option.some.inj h).symm⟩
  · cases h

/-- producer `p` の居場所を、手元の操作の同じ居場所に替えても、どの producer の手元の操作も変わらない。 -/
theorem pending_update {p : Nat} {pc : ProducerPc w V} (h : pc.pending = (s.producers p).pending) (q : Nat) :
    (Function.update s.producers p pc q).pending = (s.producers q).pending := by
  by_cases hq : q = p
  · subst hq
    rw [Function.update_same, h]
  · rw [Function.update_noteq hq]

/-- producer `p` の居場所を替えた後の、各 producer の手元の操作。 -/
theorem pending_update_eq_ite {p : Nat} (pc : ProducerPc w V) (q : Nat) :
    (Function.update s.producers p pc q).pending = if q = p then pc.pending else (s.producers q).pending := by
  by_cases hq : q = p
  · subst hq
    rw [Function.update_same, if_pos rfl]
  · rw [Function.update_noteq hq, if_neg hq]

/-- **`call` 以外の一歩が幽霊の記録にすること。** 積めた操作と手元の操作を変えずに、wheel に何も
起こさないか、`split_off` を起こすか、積めた順で次の操作を当てる。または、ある producer が手元の操作を
積み、休む。 -/
theorem step_ghost (hs : s.Good) {a : Action w V} (ha : ∀ p op, a ≠ .call p op)
    (h : s.step a = some s') :
    (s'.pushed = s.pushed ∧ (∀ p, (s'.producers p).pending = (s.producers p).pending) ∧
      (s'.history = s.history ∨ (∃ k, s'.history = s.history ++ [.split k]) ∨
        ∃ o, (s.pushed.map Prod.snd)[s.applied]? = some o ∧ s'.history = s.history ++ [.op o])) ∨
    ∃ p o, (s.producers p).pending = [o] ∧ s'.pushed = s.pushed ++ [(p, o)] ∧
      s'.producers = Function.update s.producers p .idle ∧ s'.history = s.history := by
  cases a with
  | call p op => exact absurd rfl (ha p op)
  | push p =>
    simp only [step] at h
    split at h
    · next op hp =>
      split at h
      · cases h
        exact .inr ⟨p, op, by rw [hp]; rfl, rfl, rfl, rfl⟩
      · next op' hq =>
        cases h
        obtain ⟨-, rfl⟩ := BoundedQueue.push_eq_error.mp hq
        exact .inl ⟨rfl, pending_update (by rw [hp]; rfl), .inl rfl⟩
    · cases h
  | lock p =>
    simp only [step] at h
    split at h
    · next op hp _ =>
      cases h
      exact .inl ⟨rfl, pending_update (by rw [hp]; rfl), .inl rfl⟩
    · cases h
  | pop =>
    simp only [step] at h
    split at h
    · split at h
      · next op q hq =>
        cases h
        obtain ⟨rest, hitems, -⟩ := BoundedQueue.pop_eq_some.mp hq
        have hdrop := hs.queued
        rw [hitems] at hdrop
        refine .inl ⟨rfl, fun _ => rfl, .inr (.inr ⟨op, ?_, rfl⟩)⟩
        rw [← List.head?_drop, ← hdrop]
        rfl
      · cases h
    · cases h
  | unlock p =>
    simp only [step] at h
    split at h
    · next op hp =>
      split at h
      · cases h
        exact .inl ⟨rfl, pending_update (by rw [hp]; rfl), .inl rfl⟩
      · cases h
    · cases h
  | loopLock =>
    simp only [step] at h
    split at h
    · cases h
      exact .inl ⟨rfl, fun _ => rfl, .inl rfl⟩
    · cases h
  | loopSplit now =>
    simp only [step] at h
    split at h
    · split at h
      · cases h
        exact .inl ⟨rfl, fun _ => rfl, .inr (.inl ⟨_, rfl⟩)⟩
      · cases h
    · cases h

end Store

/-- `timer_id` を持つ置き場。 -/
structure Counted (w : Nat) (V : Type) where
  store : Store w V
  /-- `Reactor::timer_id`。 -/
  timerId : BitVec w
  /-- `insert_timer` が返した id、返した順（幽霊）。 -/
  returned : List (BitVec w)

/-- 一歩。 -/
inductive CountedAction (w : Nat) (V : Type) where
  /-- producer `p` が `insert_timer(deadline, waker)` を呼ぶ：`fetch_add(1)` で id を取り、
  `InsertTimer(deadline, id, waker)` を手元に持つ。 -/
  | insertTimer (p : Nat) (deadline : Instant) (waker : V)
  /-- producer `p` が `remove_timer(deadline, id)` を呼ぶ。 -/
  | removeTimer (p : Nat) (deadline : Instant) (id : BitVec w)
  /-- 置き場の `call` 以外の一歩。 -/
  | act (a : Action w V)

namespace Counted

/-- `Reactor::new`：`timer_id` は 1。 -/
def init (capacity : Nat) (h : 0 < capacity) : Counted w V := ⟨.init capacity h, 1, []⟩

/-- 一歩進める。`remove_timer` には返した id だけを渡す。 -/
def step (c : Counted w V) : CountedAction w V → Option (Counted w V)
  | .insertTimer p deadline waker =>
    (c.store.step (.call p (.insertTimer deadline c.timerId waker))).map fun s =>
      ⟨s, c.timerId + 1, c.returned ++ [c.timerId]⟩
  | .removeTimer p deadline id =>
    if id ∈ c.returned then
      (c.store.step (.call p (.removeTimer deadline id))).map fun s => { c with store := s }
    else none
  | .act (.call _ _) => none
  | .act a => (c.store.step a).map fun s => { c with store := s }

/-- 一歩ずつ順に進める。 -/
def runActions (c : Counted w V) : List (CountedAction w V) → Option (Counted w V)
  | [] => some c
  | a :: as => (c.step a).bind fun c' => c'.runActions as

/-- `Reactor::new` から、どの thread の一歩をどう挟んでも届く状態。 -/
inductive Reachable : Counted w V → Prop
  | init (capacity : Nat) (h : 0 < capacity) : Reachable (init capacity h)
  | step {c c' : Counted w V} (a : CountedAction w V) : Reachable c → c.step a = some c' → Reachable c'

theorem Reachable.runActions {c c' : Counted w V} (h : Reachable c) :
    ∀ (as : List (CountedAction w V)), c.runActions as = some c' → Reachable c'
  | [], hc => by cases hc; exact h
  | a :: as, hc => by
    simp only [Counted.runActions, Option.bind_eq_some] at hc
    obtain ⟨c₁, h₁, hc⟩ := hc
    exact (h.step a h₁).runActions as hc

/-- **一歩の形。** `insert_timer` は `timer_id` を返して 1 進め、その id の `InsertTimer` を手元に置く。
`remove_timer` は返した id の `RemoveTimer` を手元に置く。他の一歩は置き場の `call` 以外の一歩である。 -/
theorem step_cases {c c' : Counted w V} {a : CountedAction w V} (h : c.step a = some c') :
    (∃ p d v, c.store.step (.call p (.insertTimer d c.timerId v)) = some c'.store ∧
      c'.timerId = c.timerId + 1 ∧ c'.returned = c.returned ++ [c.timerId]) ∨
    (∃ p d id, id ∈ c.returned ∧ c.store.step (.call p (.removeTimer d id)) = some c'.store ∧
      c'.timerId = c.timerId ∧ c'.returned = c.returned) ∨
    (∃ a', (∀ p op, a' ≠ .call p op) ∧ c.store.step a' = some c'.store ∧
      c'.timerId = c.timerId ∧ c'.returned = c.returned) := by
  cases a with
  | insertTimer p d v =>
    obtain ⟨s, hs, rfl⟩ := Option.map_eq_some'.mp h
    exact .inl ⟨p, d, v, hs, rfl, rfl⟩
  | removeTimer p d id =>
    simp only [step] at h
    split_ifs at h with hid
    obtain ⟨s, hs, rfl⟩ := Option.map_eq_some'.mp h
    exact .inr (.inl ⟨p, d, id, hid, hs, rfl, rfl⟩)
  | act a =>
    cases a with
    | call p op => cases h
    | _ =>
      obtain ⟨s, hs, rfl⟩ := Option.map_eq_some'.mp h
      refine .inr (.inr ⟨_, fun _ _ h => ?_, hs, rfl, rfl⟩)
      cases h

/-- 置き場だけを見れば、`Staging` の届く状態である。 -/
theorem Reachable.store {c : Counted w V} (h : c.Reachable) : c.store.Reachable := by
  induction h with
  | init capacity h => exact .init capacity h
  | step a _ hstep ih =>
    rcases step_cases hstep with ⟨_, _, _, hs, -⟩ | ⟨_, _, _, -, hs, -⟩ | ⟨_, -, hs, -⟩ <;>
      exact ih.step _ hs

/-- 返した id は一歩ごとに増えるだけである。 -/
theorem returned_length_le {c c' : Counted w V} {a : CountedAction w V} (h : c.step a = some c') :
    c.returned.length ≤ c'.returned.length := by
  rcases step_cases h with ⟨_, _, _, -, -, hr⟩ | ⟨_, _, _, -, -, -, hr⟩ | ⟨_, -, -, -, hr⟩ <;>
    simp [hr]

/-! ## 不変条件 -/

/-- 積めた `InsertTimer` の id。 -/
def pushedIds (c : Counted w V) : List (BitVec w) :=
  (c.store.pushed.map Prod.snd).filterMap TimerOp.insertId?

/-- producer `p` の手元の `InsertTimer` の id。 -/
def heldIds (c : Counted w V) (p : Nat) : List (BitVec w) :=
  (c.store.producers p).pending.filterMap TimerOp.insertId?

/-- 届く状態で `timer_id` と id について言えること。 -/
structure Fresh (c : Counted w V) : Prop where
  counter : c.timerId.toNat = c.returned.length + 1
  returned : c.returned = (List.range c.returned.length).map fun k => BitVec.ofNat w (k + 1)
  /-- 積めた操作の鍵の id は `timer_id` より小さい。 -/
  pushedBelow : ∀ o ∈ c.store.pushed.map Prod.snd, o.key.id.toNat < c.timerId.toNat
  /-- 手元の操作の鍵の id は `timer_id` より小さい。 -/
  heldBelow : ∀ p, ∀ o ∈ (c.store.producers p).pending, o.key.id.toNat < c.timerId.toNat
  /-- 積めた `InsertTimer` の id は互いに違う。 -/
  pushedNodup : c.pushedIds.Nodup
  /-- 手元の `InsertTimer` の id は、積めたどの `InsertTimer` の id でもない。 -/
  heldFresh : ∀ p, ∀ i ∈ c.heldIds p, i ∉ c.pushedIds
  /-- 手元の `InsertTimer` の id は、他の producer の手元にない。 -/
  heldUnique : ∀ p q, ∀ i ∈ c.heldIds p, i ∈ c.heldIds q → p = q
  /-- 当てた `InsertTimer` の鍵は、当てた時の wheel になかった。 -/
  noReplace : ∀ pre d id v post, c.store.history = pre ++ .op (.insertTimer d id v) :: post →
    (replay pre).get? ⟨d, id⟩ = none

theorem fresh_init (capacity : Nat) (h : 0 < capacity) (hw : 0 < 2 ^ w - 1) :
    (init capacity h : Counted w V).Fresh where
  counter := Reactor.toNat_ofNat_of_lt (n := 1) (by omega)
  returned := rfl
  pushedBelow _ h := nomatch h
  heldBelow _ _ h := nomatch h
  pushedNodup := .nil
  heldFresh _ _ h := nomatch h
  heldUnique _ _ _ h := nomatch h
  noReplace pre _ _ _ _ h := absurd h (by simp [init, Store.init])

/-- 返した id は `timer_id` より小さい。 -/
theorem Fresh.lt_of_mem_returned {c : Counted w V} (hf : c.Fresh) (hn : c.returned.length < 2 ^ w - 1)
    {id : BitVec w} (h : id ∈ c.returned) : 0 < id.toNat ∧ id.toNat < c.timerId.toNat := by
  rw [hf.returned] at h
  obtain ⟨k, hk, rfl⟩ := List.mem_map.mp h
  have := List.mem_range.mp hk
  rw [Reactor.toNat_ofNat_of_lt (by omega), hf.counter]
  omega

/-- `insert_timer` の一歩で保たれる。 -/
theorem Fresh.insertTimer {c c' : Counted w V} (hf : c.Fresh) (hn : c'.returned.length < 2 ^ w - 1)
    {p : Nat} {d : Instant} {v : V} (hs : c.store.step (.call p (.insertTimer d c.timerId v)) = some c'.store)
    (ht : c'.timerId = c.timerId + 1) (hr : c'.returned = c.returned ++ [c.timerId]) : c'.Fresh := by
  obtain ⟨hidle, hs'⟩ := Store.step_call_eq hs
  have hlen : c'.returned.length = c.returned.length + 1 := by simp [hr]
  have hnext : c'.timerId.toNat = c.timerId.toNat + 1 := by
    rw [ht, Reactor.toNat_add_one_of_lt (by rw [hf.counter]; omega)]
  have hheld : ∀ q, (c'.store.producers q).pending =
      if q = p then [.insertTimer d c.timerId v] else (c.store.producers q).pending := fun q => by
    rw [hs']
    exact Store.pending_update_eq_ite _ q
  have hpushed : c'.store.pushed = c.store.pushed := by rw [hs']
  have hpushedIds : c'.pushedIds = c.pushedIds := by rw [pushedIds, pushedIds, hpushed]
  have hheldIds : ∀ q, c'.heldIds q = if q = p then [c.timerId] else c.heldIds q := fun q => by
    rw [heldIds, hheld q]
    split_ifs <;> rfl
  have hidle' : c.heldIds p = [] := by rw [heldIds, hidle]; rfl
  /- 鍵の id がみな `timer_id` より小さい操作の列に、id が `timer_id` の `InsertTimer` はない。
  積めた操作と手元の操作がそうである。 -/
  have hfresh : ∀ l : List (TimerOp w V), (∀ o ∈ l, o.key.id.toNat < c.timerId.toNat) →
      c.timerId ∉ l.filterMap TimerOp.insertId? := fun l hl hi => by
    obtain ⟨o, ho, hoi⟩ := List.mem_filterMap.mp hi
    have := hl o ho
    rw [TimerOp.key_id_of_insertId? hoi] at this
    omega
  refine ⟨by rw [hnext, hf.counter, hlen], ?_, fun o ho => ?_, fun q o ho => ?_, hpushedIds ▸ hf.pushedNodup,
    fun q i hi => ?_, fun q q' i hi hi' => ?_, by rw [hs']; exact hf.noReplace⟩
  · have hid : c.timerId = BitVec.ofNat w (c.returned.length + 1) :=
      BitVec.eq_of_toNat_eq (by rw [hf.counter, Reactor.toNat_ofNat_of_lt (by omega)])
    rw [hlen, hr, List.range_succ, List.map_append, ← hf.returned, List.map_singleton, hid]
  · rw [hpushed] at ho
    have := hf.pushedBelow o ho
    omega
  · rw [hheld q] at ho
    split_ifs at ho
    · rw [List.mem_singleton.mp ho]
      show c.timerId.toNat < _
      omega
    · have := hf.heldBelow q o ho
      omega
  · rw [hpushedIds]
    rw [hheldIds q] at hi
    split_ifs at hi
    · rw [List.mem_singleton.mp hi]
      exact hfresh _ hf.pushedBelow
    · exact hf.heldFresh q i hi
  · rw [hheldIds] at hi hi'
    split_ifs at hi hi' with h1 h2 h2
    · rw [h1, h2]
    · rw [List.mem_singleton.mp hi] at hi'
      exact absurd hi' (hfresh _ (hf.heldBelow q'))
    · rw [List.mem_singleton.mp hi'] at hi
      exact absurd hi (hfresh _ (hf.heldBelow q))
    · exact hf.heldUnique q q' i hi hi'

/-- `remove_timer` の一歩で保たれる。 -/
theorem Fresh.removeTimer {c c' : Counted w V} (hf : c.Fresh) (hn : c.returned.length < 2 ^ w - 1)
    {p : Nat} {d : Instant} {id : BitVec w} (hid : id ∈ c.returned)
    (hs : c.store.step (.call p (.removeTimer d id)) = some c'.store)
    (ht : c'.timerId = c.timerId) (hr : c'.returned = c.returned) : c'.Fresh := by
  obtain ⟨hidle, hs'⟩ := Store.step_call_eq hs
  have hheld : ∀ q, (c'.store.producers q).pending =
      if q = p then [.removeTimer d id] else (c.store.producers q).pending := fun q => by
    rw [hs']
    exact Store.pending_update_eq_ite _ q
  have hheldIds : ∀ q, c'.heldIds q = c.heldIds q := fun q => by
    rw [heldIds, heldIds, hheld q]
    split_ifs with hq
    · rw [hq, hidle]
      rfl
    · rfl
  have hpushed : c'.store.pushed = c.store.pushed := by rw [hs']
  have hpushedIds : c'.pushedIds = c.pushedIds := by rw [pushedIds, pushedIds, hpushed]
  refine ⟨ht ▸ hr ▸ hf.counter, hr ▸ hf.returned, fun o ho => ?_, fun q o ho => ?_,
    hpushedIds ▸ hf.pushedNodup, fun q => hpushedIds ▸ hheldIds q ▸ hf.heldFresh q,
    fun q q' => hheldIds q ▸ hheldIds q' ▸ hf.heldUnique q q', by rw [hs']; exact hf.noReplace⟩
  · rw [hpushed] at ho
    exact ht ▸ hf.pushedBelow o ho
  · rw [hheld q] at ho
    split_ifs at ho
    · rw [List.mem_singleton.mp ho, ht]
      exact (hf.lt_of_mem_returned hn hid).2
    · exact ht ▸ hf.heldBelow q o ho

/-- 当てる操作の鍵は、その時の wheel にない。積めた `InsertTimer` の id は互いに違い、wheel の鍵は
前に当てた `InsertTimer` の鍵だからである。 -/
theorem Fresh.get?_eq_none {c : Counted w V} (hf : c.Fresh) (hg : c.store.Good) {o : TimerOp w V}
    (ho : (c.store.pushed.map Prod.snd)[c.store.applied]? = some o) {d : Instant} {id : BitVec w}
    {v : V} (hov : o = .insertTimer d id v) : (replay c.store.history).get? ⟨d, id⟩ = none := by
  cases hget : (replay c.store.history).get? ⟨d, id⟩ with
  | none => rfl
  | some v' =>
    have hmem := mem_replay ((SortedMap.mem_iff_get? _ _ _).mpr hget)
    have hx : TimerOp.insertTimer d id v' ∈ (c.store.pushed.map Prod.snd).take c.store.applied := by
      rw [← hg.ops]
      exact List.mem_filterMap.mpr ⟨_, hmem, rfl⟩
    have hy : o ∈ (c.store.pushed.map Prod.snd).drop c.store.applied := by
      rw [← List.head?_drop] at ho
      exact List.mem_of_mem_head? ho
    exact (insertId_take_drop hf.pushedNodup _ hx hy rfl (by rw [hov]; rfl)).elim

/-- `call` 以外の一歩で保たれる。 -/
theorem Fresh.act {c c' : Counted w V} (hf : c.Fresh) (hg : c.store.Good) {a : Action w V}
    (ha : ∀ p op, a ≠ .call p op) (hs : c.store.step a = some c'.store)
    (ht : c'.timerId = c.timerId) (hr : c'.returned = c.returned) : c'.Fresh := by
  rcases Store.step_ghost hg ha hs with ⟨hpushed, hheld, hhist⟩ | ⟨p, o, hp, hpushed, hprod, hhist⟩
  · have hpushedIds : c'.pushedIds = c.pushedIds := by rw [pushedIds, pushedIds, hpushed]
    have hheldIds : ∀ q, c'.heldIds q = c.heldIds q := fun q => by rw [heldIds, heldIds, hheld q]
    refine ⟨ht ▸ hr ▸ hf.counter, hr ▸ hf.returned, fun o ho => ?_, fun q o ho => ?_,
      hpushedIds ▸ hf.pushedNodup, fun q => hpushedIds ▸ hheldIds q ▸ hf.heldFresh q,
      fun q q' => hheldIds q ▸ hheldIds q' ▸ hf.heldUnique q q', fun pre d id v post h => ?_⟩
    · rw [hpushed] at ho
      exact ht ▸ hf.pushedBelow o ho
    · rw [hheld q] at ho
      exact ht ▸ hf.heldBelow q o ho
    · rcases hhist with hh | ⟨k, hh⟩ | ⟨o, ho, hh⟩ <;> rw [hh] at h
      · exact hf.noReplace pre d id v post h
      · rcases eq_append_cons_of_concat h with ⟨post', h⟩ | ⟨-, h⟩
        · exact hf.noReplace pre d id v post' h
        · cases h
      · rcases eq_append_cons_of_concat h with ⟨post', h⟩ | ⟨rfl, hx⟩
        · exact hf.noReplace pre d id v post' h
        · exact hf.get?_eq_none hg ho (Event.op.inj hx).symm
  · have hheldIds : ∀ q, c'.heldIds q = if q = p then [] else c.heldIds q := fun q => by
      rw [heldIds, hprod, Store.pending_update_eq_ite]
      split_ifs <;> rfl
    have hpushedIds : c'.pushedIds = c.pushedIds ++ o.insertId?.toList := by
      rw [pushedIds, pushedIds, hpushed, List.map_append, List.filterMap_append]
      congr 1
    have hown : ∀ i, o.insertId? = some i → i ∈ c.heldIds p := fun i hi => by
      rw [heldIds, hp]
      exact List.mem_filterMap.mpr ⟨o, List.mem_singleton_self o, hi⟩
    refine ⟨ht ▸ hr ▸ hf.counter, hr ▸ hf.returned, fun o' ho' => ?_, fun q o' ho' => ?_, ?_,
      fun q i hi => ?_, fun q q' i hi hi' => ?_, hhist ▸ hf.noReplace⟩
    · rw [hpushed, List.map_append, List.mem_append] at ho'
      rw [ht]
      rcases ho' with ho' | ho'
      · exact hf.pushedBelow o' ho'
      · exact hf.heldBelow p o' (hp ▸ List.mem_singleton.mpr (List.mem_singleton.mp ho'))
    · rw [hprod, Store.pending_update_eq_ite] at ho'
      split_ifs at ho'
      · cases ho'
      · exact ht ▸ hf.heldBelow q o' ho'
    · rw [hpushedIds]
      refine List.Nodup.append hf.pushedNodup ?_ fun ⦃i⦄ hi hi' => ?_
      · cases o.insertId? <;> simp
      · exact hf.heldFresh p i (hown i (Option.mem_toList.mp hi')) hi
    · rw [hheldIds q] at hi
      split_ifs at hi with hq
      · cases hi
      · rw [hpushedIds, List.mem_append]
        rintro (h | h)
        · exact hf.heldFresh q i hi h
        · exact hq (hf.heldUnique q p i hi (hown i (Option.mem_toList.mp h)))
    · rw [hheldIds q] at hi
      rw [hheldIds q'] at hi'
      split_ifs at hi hi' <;> first | exact absurd hi (List.not_mem_nil _) |
        exact absurd hi' (List.not_mem_nil _) | exact hf.heldUnique q q' i hi hi'

/-- **一歩ごとに保たれる。** -/
theorem Fresh.step {c c' : Counted w V} (hf : c.Fresh) (hg : c.store.Good) {a : CountedAction w V}
    (h : c.step a = some c') (hn : c'.returned.length < 2 ^ w - 1) : c'.Fresh := by
  rcases step_cases h with ⟨p, d, v, hs, ht, hr⟩ | ⟨p, d, id, hid, hs, ht, hr⟩ | ⟨a', ha, hs, ht, hr⟩
  · exact hf.insertTimer hn hs ht hr
  · exact hf.removeTimer (hr ▸ hn) hid hs ht hr
  · exact hf.act hg ha hs ht hr

theorem Reachable.fresh {c : Counted w V} (h : c.Reachable) (hn : c.returned.length < 2 ^ w - 1) :
    c.Fresh := by
  induction h with
  | init capacity h => exact fresh_init capacity h (by omega)
  | step a hc hstep ih =>
    exact (ih (lt_of_le_of_lt (returned_length_le hstep) hn)).step hc.store.good hstep hn

/-! ## id は新しい -/

/-- 並行の置き場で、id について言えること。 -/
structure IdsFresh (c : Counted w V) : Prop where
  /-- `insert_timer` が返した id は互いに違う。 -/
  returnedNodup : c.returned.Nodup
  /-- `insert_timer` が返した id は 0 でない。 -/
  returnedNeZero : ∀ id ∈ c.returned, id ≠ 0
  /-- wheel の鍵の id は `timer_id` より小さい。 -/
  wheelBelow : ∀ e ∈ c.store.timers.entries, e.1.id.toNat < c.timerId.toNat
  /-- 待ち行列の操作の鍵の id は `timer_id` より小さい。 -/
  queueBelow : ∀ o ∈ c.store.queue.items, o.key.id.toNat < c.timerId.toNat
  /-- producer の手元の操作の鍵の id は `timer_id` より小さい。 -/
  heldBelow : ∀ p, ∀ o ∈ (c.store.producers p).pending, o.key.id.toNat < c.timerId.toNat
  /-- 二つの `insert_timer` が同じ id の操作を積むことはない。 -/
  insertsNodup : ((c.store.pushed.map Prod.snd).filterMap TimerOp.insertId?).Nodup
  /-- `process_timer_ops` が当てた `InsertTimer` の鍵は、当てた時の wheel になかった。 -/
  noReplace : ∀ pre d id v post, c.store.history = pre ++ .op (.insertTimer d id v) :: post →
    (replay pre).get? ⟨d, id⟩ = none
  /-- `RemoveTimer(d, id)` が取り除いた組は、同じ鍵と値で前に当てた `InsertTimer` が入れた組である。 -/
  removeOwn : ∀ pre d id post v, c.store.history = pre ++ .op (.removeTimer d id) :: post →
    (replay pre).get? ⟨d, id⟩ = some v → Event.op (.insertTimer d id v) ∈ pre

/-- **並行に呼んでも id は新しい。** 容量が正のどの待ち行列でも、どの数の producer の `insert_timer` /
`remove_timer` と loop の `process_timers` をどう挟んでも、`insert_timer` が `2^w - 1` 回より少なければ、
`IdsFresh` が成り立つ。 -/
theorem idsFresh_of_reachable {c : Counted w V} (h : c.Reachable) (hn : c.returned.length < 2 ^ w - 1) :
    c.IdsFresh := by
  have hf := h.fresh hn
  have hg := h.store.good
  have hbelow : ∀ o ∈ c.store.pushed.map Prod.snd, o.key.id.toNat < c.timerId.toNat := hf.pushedBelow
  refine ⟨?_, fun id hid => ?_, fun e he => ?_, fun o ho => ?_, hf.heldBelow, hf.pushedNodup,
    hf.noReplace, fun pre d id post v _ hv => ?_⟩
  · rw [hf.returned]
    exact Reactor.nodup_map_ofNat_succ (by omega)
  · rw [hf.returned] at hid
    exact Reactor.ne_zero_of_mem_map_ofNat_succ (by omega) hid
  · rw [hg.timers] at he
    have hmem := mem_replay he
    have : TimerOp.insertTimer e.1.deadline e.1.id e.2 ∈ c.store.pushed.map Prod.snd := by
      refine List.mem_of_mem_take (n := c.store.applied) ?_
      rw [← hg.ops]
      exact List.mem_filterMap.mpr ⟨_, hmem, rfl⟩
    exact hbelow _ this
  · rw [hg.queued] at ho
    exact hbelow o (List.mem_of_mem_drop ho)
  · exact mem_replay ((SortedMap.mem_iff_get? _ _ _).mpr hv)

end Counted

end Staging

section

variable {w : Nat} {V : Type}

/-- **id は新しい。** `insert_timer` が `2^w - 1` 回より少ないうちは、次の三つが言える。

* `Reactor::new` からのどの呼び出しの列でも、返す id は 0 でなく互いに違い、`insert_timer` の鍵は抽象の
  wheel にまだなく、`remove_timer` が取り除く組はその id を返した `insert_timer` が入れた組である。
* `insert_timer` と `remove_timer` を呼ぶのは `Timer` だけである。timer の集まりがどの出来事の列で
  呼ぶ列でも、`remove_timer` は発行済みの id だけを渡し、そのうえ途中のどの時点でも、wheel と待ち行列の
  鍵の id は `timer_id` より小さい。コードそのままの系の reactor は、その列を呼んだ reactor である。
* 並行の置き場で、どの数の producer がどう挟んで呼んでも、返す id は 0 でなく互いに違い、wheel、
  待ち行列、手元の操作の鍵の id は `timer_id` より小さく、積めた `InsertTimer` の id は互いに違い、
  当てた `InsertTimer` の鍵は当てた時の wheel になく、`RemoveTimer` が取り除いた組は同じ鍵と値の
  `InsertTimer` が入れた組である。 -/
theorem fresh_ids :
    (∀ cs : List (Call w V), Reactor.insertCount cs < 2 ^ w - 1 → Reactor.FreshIds cs) ∧
    (∀ es : List SystemEvent, Reactor.insertCount (PlainSystem.timerCalls w es) < 2 ^ w - 1 →
      ((PlainSystem.init w).runEvents es).reactor =
          ((Reactor.new w Waker).run (PlainSystem.timerCalls w es)).1 ∧
        Reactor.RemovesIssued (PlainSystem.timerCalls w es) ∧
        Reactor.FreshIds (PlainSystem.timerCalls w es) ∧ Reactor.KeysBelow (PlainSystem.timerCalls w es)) ∧
    (∀ c : Staging.Counted w V, c.Reachable → c.returned.length < 2 ^ w - 1 → c.IdsFresh) :=
  ⟨Reactor.freshIds_run, PlainSystem.timerCalls_fresh,
    fun _ h hn => Staging.Counted.idsFresh_of_reachable h hn⟩

end

/-- 期限 10ns の `insert_timer`、返った id 1 での `remove_timer`、時刻 20ns の `process_timers`。 -/
def freshCalls : List (Call 64 Nat) :=
  [.insertTimer ⟨10, by decide, by decide⟩ 0, .removeTimer ⟨10, by decide, by decide⟩ 1,
    .processTimers ⟨⟨20, by decide, by decide⟩, by decide⟩]

/-- 期限 10ns の timer を作り、時刻 5ns に poll し、時刻 6ns に別の waker で poll し直して
（登録を外して入れ直す）、時刻 20ns に loop が `process_timers` を呼び、timer を捨てる。 -/
def freshEvents : List SystemEvent :=
  [.create (.at ⟨10, by decide, by decide⟩), .poll 0 ⟨0, 0⟩ ⟨⟨5, by decide, by decide⟩, by decide⟩,
    .poll 0 ⟨0, 1⟩ ⟨⟨6, by decide, by decide⟩, by decide⟩, .process ⟨⟨20, by decide, by decide⟩, by decide⟩,
    .drop 0]

/-- 容量 1 の待ち行列で、producer 0 が期限 10ns の `insert_timer` を積み、producer 1 の期限 20ns の
`insert_timer` は満杯で lock を取って取り出し、積み直す。producer 0 が id 2 の `remove_timer` を呼び、
loop の `process_timers` が lock を取って取り出す間にそれを積み、loop は時刻 30ns で分ける。 -/
def freshRun : List (Staging.CountedAction 64 Nat) :=
  [.insertTimer 0 ⟨10, by decide, by decide⟩ 0, .act (.push 0), .insertTimer 1 ⟨20, by decide, by decide⟩ 1,
    .act (.push 1), .act (.lock 1), .act .pop, .act (.unlock 1), .act (.push 1),
    .removeTimer 0 ⟨20, by decide, by decide⟩ 2, .act .loopLock, .act .pop, .act (.push 0),
    .act (.loopSplit ⟨⟨30, by decide, by decide⟩, by decide⟩)]

theorem fresh_ids_three_layers :
    (Reactor.insertCount freshCalls < 2 ^ 64 - 1 ∧ Reactor.FreshIds freshCalls) ∧
    (Reactor.insertCount (PlainSystem.timerCalls 64 freshEvents) < 2 ^ 64 - 1 ∧
      ((PlainSystem.init 64).runEvents freshEvents).reactor =
          ((Reactor.new 64 Waker).run (PlainSystem.timerCalls 64 freshEvents)).1 ∧
        Reactor.RemovesIssued (PlainSystem.timerCalls 64 freshEvents) ∧
        Reactor.FreshIds (PlainSystem.timerCalls 64 freshEvents) ∧
        Reactor.KeysBelow (PlainSystem.timerCalls 64 freshEvents)) ∧
    ∃ c, (Staging.Counted.init 1 (by decide)).runActions freshRun = some c ∧ c.Reachable ∧
      c.returned.length < 2 ^ 64 - 1 ∧ c.IdsFresh := by
  have h1 : Reactor.insertCount freshCalls < 2 ^ 64 - 1 := by decide
  have h2 : Reactor.insertCount (PlainSystem.timerCalls 64 freshEvents) < 2 ^ 64 - 1 := by decide
  refine ⟨⟨h1, (fresh_ids (V := Nat)).1 _ h1⟩, ⟨h2, (fresh_ids (V := Nat)).2.1 _ h2⟩, ?_⟩
  refine Exists.imp (fun c hc => ⟨hc, ?_⟩) (Option.isSome_iff_exists.mp rfl)
  have hr := (Staging.Counted.Reachable.init _ _).runActions _ hc
  have hlen : (some c).map (fun c => c.returned.length) = some 2 := by rw [← hc]; rfl
  have hn : c.returned.length < 2 ^ 64 - 1 := by
    rw [Option.map_some', Option.some.injEq] at hlen
    omega
  exact ⟨hr, hn, (fresh_ids (V := Nat)).2.2 c hr hn⟩

end AsyncWinit
