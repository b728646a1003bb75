import AsyncWinit.Reactor.TimerOp

/-!
# 二段の timer の置き場を並行に使う

`timer_op_queue` は lock なしで積める有界の待ち行列で、wheel は Mutex の中にある。
`insert_timer` / `remove_timer` はどの thread からも呼ばれ、`push` が満杯で失敗すると
wheel の lock を取って `process_timer_ops` で取り出し、lock を放して同じ操作を積み直す。
loop の `process_timers` も lock を取って取り出し、同じ lock の中で `split_off` する。

## 原子的な一歩

* `call` — producer が `insert_timer` / `remove_timer` を呼び、積む操作が決まる。
* `push` — `ConcurrentQueue::push` 一回。満杯なら lock を待つ。
* `lock` / `unlock` — producer が wheel の lock を取る、放して積み直しに戻る。
* `pop` — lock を持つ thread が `try_iter().take(limit)` の次を一つ取り出して wheel に当てる。
  取り出しの途中でも、他の producer は積める。
* `loopLock` / `loopSplit` — loop が lock を取る、取り出しの後に `split_off` して放す。

取り出しが終わるのは `limit`（容量）個取ったか、待ち行列が空だったときである（`drained`）。

## 幽霊の記録

`pushed`（積めた操作と producer の番号、積めた順）、`applied`（wheel に当てた数）、
`history`（wheel に起きたこと：当てた操作と `split_off`）、`issued`（producer ごとに呼んだ操作）、
loop の `start`（lock を取った時に積まれていた数）は、どの一歩の分岐も読まない。

## 結果

* `store_fifo` — どの届く状態でも、wheel に当てた操作は積まれた順の前半そのもので、残りは
  待ち行列に同じ順で並ぶ（二度当てることも、落とすこともない）。producer の呼んだ操作は、
  呼んだ順に積まれているか、まだ手元にある。wheel は、当てた操作と `split_off` を順に
  空の素の map に当てたものである。`process_timers` の取り出しが終わった時、lock を取る前に
  積まれた操作は全部当たっていて、その間に誰も積まなければちょうどそれだけが当たっている。
* `drain_not_prefix_of_pushed` — 前の `process_timers` が起こした組は wheel から消えるので、
  取り出しの後の wheel は、積まれた操作の前半を空の map に当てたものとは限らない。
-/

namespace AsyncWinit

namespace Staging

/-- producer（`insert_timer` / `remove_timer` を呼んだ thread）の居場所。 -/
inductive ProducerPc (w : Nat) (V : Type) where
  | idle
  /-- `push(op)` の前。 -/
  | pushing (op : TimerOp w V)
  /-- 満杯だったので wheel の lock を待つ。 -/
  | locking (op : TimerOp w V)
  /-- lock を持って `process_timer_ops` の途中。 -/
  | draining (op : TimerOp w V)

/-- loop（`process_timers`）の居場所。`start` は lock を取った時に積まれていた操作の数（幽霊）。 -/
inductive LoopPc where
  | idle
  | draining (start : Nat)

/-- wheel の lock を持つ thread。 -/
inductive Holder where
  | producer (p : Nat)
  | loop

/-- wheel に起きたこと。 -/
inductive Event (w : Nat) (V : Type) where
  | op (o : TimerOp w V)
  /-- `split_off(k)` の後ろ（`pending`）を残す。 -/
  | split (k : TimerKey w)

variable {w : Nat} {V : Type}

/-- まだ積めていない操作。 -/
def ProducerPc.pending : ProducerPc w V → List (TimerOp w V)
  | .idle => []
  | .pushing op | .locking op | .draining op => [op]

/-- 起きたことを wheel に当てる。 -/
def Event.apply (m : Wheel w V) : Event w V → Wheel w V
  | .op o => o.apply m
  | .split k => (m.splitOff k).2

/-- 起きたことを素の map に当てる。 -/
def Event.applyPlain (m : TimerKey w → Option V) : Event w V → (TimerKey w → Option V)
  | .op o => o.applyPlain m
  | .split k => fun k' => if k ≤ k' then m k' else none

/-- 当てた操作なら、その操作。 -/
def Event.op? : Event w V → Option (TimerOp w V)
  | .op o => some o
  | .split _ => none

/-- 二段の置き場と、それを使う thread たち。 -/
structure Store (w : Nat) (V : Type) where
  timers : Wheel w V
  queue : BoundedQueue (TimerOp w V)
  lock : Option Holder
  /-- lock を持つ thread の `take(limit)` が取り出した数。 -/
  taken : Nat
  producers : Nat → ProducerPc w V
  loop : LoopPc
  /-- 積めた操作と producer の番号（幽霊）。 -/
  pushed : List (Nat × TimerOp w V)
  /-- wheel に当てた操作の数（幽霊）。 -/
  applied : Nat
  /-- wheel に起きたこと（幽霊）。 -/
  history : List (Event w V)
  /-- producer ごとに呼んだ操作（幽霊）。 -/
  issued : Nat → List (TimerOp w V)

/-- 一歩。 -/
inductive Action (w : Nat) (V : Type) where
  | call (p : Nat) (op : TimerOp w V)
  | push (p : Nat)
  | lock (p : Nat)
  | pop
  | unlock (p : Nat)
  | loopLock
  | loopSplit (now : ClockReading)

namespace Store

/-- `Reactor::new` の置き場。容量は正（`bounded(0)` は panic する）。 -/
def init (capacity : Nat) (h : 0 < capacity) : Store w V where
  timers := .empty
  queue := .bounded capacity h
  lock := none
  taken := 0
  producers := fun _ => .idle
  loop := .idle
  pushed := []
  applied := 0
  history := []
  issued := fun _ => []

/-- lock を持つ thread の取り出しは終わったか：`limit` 個取ったか、待ち行列が空。 -/
def drained (s : Store w V) : Bool := s.taken == s.queue.capacity || s.queue.items.isEmpty

/-- 一歩進める。できない一歩なら `none`。 -/
def step (s : Store w V) : Action w V → Option (Store w V)
  | .call p op =>
    match s.producers p with
    | .idle => some { s with producers := Function.update s.producers p (.pushing op),
                             issued := Function.update s.issued p (s.issued p ++ [op]) }
    | _ => none
  | .push p =>
    match s.producers p with
    | .pushing op =>
      match s.queue.push op with
      | .ok q => some { s with queue := q, producers := Function.update s.producers p .idle,
                               pushed := s.pushed ++ [(p, op)] }
      | .error op => some { s with producers := Function.update s.producers p (.locking op) }
    | _ => none
  | .lock p =>
    match s.producers p, s.lock with
    | .locking op, none => some { s with lock := some (.producer p), taken := 0,
                                         producers := Function.update s.producers p (.draining op) }
    | _, _ => none
  | .pop =>
    if s.lock.isSome ∧ s.taken < s.queue.capacity then
      match s.queue.pop with
      | some (op, q) => some { s with timers := op.apply s.timers, queue := q, taken := s.taken + 1,
                                      applied := s.applied + 1, history := s.history ++ [.op op] }
      | none => none
    else none
  | .unlock p =>
    match s.producers p with
    | .draining op =>
      if s.drained then
        some { s with lock := none, producers := Function.update s.producers p (.pushing op) }
      else none
    | _ => none
  | .loopLock =>
    match s.loop, s.lock with
    | .idle, none => some { s with lock := some .loop, taken := 0, loop := .draining s.pushed.length }
    | _, _ => none
  | .loopSplit now =>
    match s.loop with
    | .draining _ =>
      if s.drained then
        some { s with timers := (s.timers.splitOff ⟨now.addOneNano, 0⟩).2, lock := none, loop := .idle,
                      history := s.history ++ [.split ⟨now.addOneNano, 0⟩] }
      else none
    | .idle => none

/-- 一歩ずつ順に進める。 -/
def runActions (s : Store w V) : List (Action w V) → Option (Store w V)
  | [] => some s
  | a :: as => (s.step a).bind fun s' => s'.runActions as

/-- `Reactor::new` から、どの thread の一歩をどう挟んでも届く状態。 -/
inductive Reachable : Store w V → Prop
  | init (capacity : Nat) (h : 0 < capacity) : Reachable (init capacity h)
  | step {s s' : Store w V} (a : Action w V) : Reachable s → s.step a = some s' → Reachable s'

theorem Reachable.runActions {s s' : Store w V} (h : Reachable s) :
    ∀ (as : List (Action w V)), s.runActions as = some s' → Reachable s'
  | [], hs => by cases hs; exact h
  | a :: as, hs => by
    simp only [Store.runActions, Option.bind_eq_some] at hs
    obtain ⟨s₁, h₁, hs⟩ := hs
    exact (h.step a h₁).runActions as hs

end Store

/-- 起きたことの列を空の wheel に当てる。 -/
def replay (es : List (Event w V)) : Wheel w V := es.foldl Event.apply .empty

/-- **wheel は素の map を精密化する。** 起きたことの列を wheel に当てた結果の意味は、
同じ列を素の map に当てた結果である。 -/
theorem get?_replay (es : List (Event w V)) :
    (replay es).get? = es.foldl Event.applyPlain (fun _ => none) := by
  suffices ∀ m : Wheel w V, (es.foldl Event.apply m).get? = es.foldl Event.applyPlain m.get? from
    this .empty
  induction es with
  | nil => intro m; rfl
  | cons e es ih =>
    intro m
    rw [List.foldl_cons, List.foldl_cons, ih]
    congr 1
    cases e with
    | op o => exact TimerOp.get?_apply m o
    | split k =>
      funext k'
      simp [Event.apply, Event.applyPlain, SortedMap.splitOff]

/-! ## 不変条件 -/

namespace Store

variable {s s' : Store w V}

/-- 置き場の不変条件。 -/
structure Good (s : Store w V) : Prop where
  /-- 待ち行列は、積めた操作のうちまだ当てていない後半。 -/
  queued : s.queue.items = (s.pushed.map Prod.snd).drop s.applied
  appliedLe : s.applied ≤ s.pushed.length
  /-- wheel に当てた操作は、積めた順の前半。 -/
  ops : s.history.filterMap Event.op? = (s.pushed.map Prod.snd).take s.applied
  /-- wheel は、起きたことを空の wheel に当てたもの。 -/
  timers : s.timers = replay s.history
  /-- producer の呼んだ操作は、呼んだ順に、積めた操作か手元の操作。 -/
  issued : ∀ p, s.issued p =
    (s.pushed.filter fun e => e.1 == p).map Prod.snd ++ (s.producers p).pending
  /-- 取り出しの途中の producer は lock を持つ。 -/
  holder : ∀ p op, s.producers p = .draining op → s.lock = some (.producer p)
  /-- 取り出しの途中の loop は lock を持ち、始めた時に積まれていた操作は、
  取り出せる残り（`limit - taken`）に収まる。 -/
  holderLoop : ∀ start, s.loop = .draining start →
    s.lock = some .loop ∧ start ≤ s.pushed.length ∧ start + s.taken ≤ s.applied + s.queue.capacity

theorem good_init (capacity : Nat) (h : 0 < capacity) : (init capacity h : Store w V).Good where
  queued := rfl
  appliedLe := le_rfl
  ops := rfl
  timers := rfl
  issued _ := rfl
  holder _ _ h := nomatch h
  holderLoop _ h := nomatch h

/-- producer `p` の居場所だけを変えても、`issued` の形は他の producer で保たれる。 -/
theorem issued_update {s : Store w V} (hs : s.Good) {p : Nat} {pc : ProducerPc w V}
    {issued : Nat → List (TimerOp w V)} {pushed : List (Nat × TimerOp w V)}
    (hpushed : ∀ p', p' ≠ p → pushed.filter (fun e => e.1 == p') = s.pushed.filter fun e => e.1 == p')
    (hissued : ∀ p', p' ≠ p → issued p' = s.issued p')
    (hp : issued p = (pushed.filter fun e => e.1 == p).map Prod.snd ++ pc.pending) :
    ∀ p', issued p' = (pushed.filter fun e => e.1 == p').map Prod.snd ++
      (Function.update s.producers p pc p').pending := by
  intro p'
  by_cases h : p' = p
  · subst h
    rw [Function.update_same, hp]
  · rw [Function.update_noteq h, hissued p' h, hpushed p' h, hs.issued p']

/-- producer `p` の居場所だけを変えるとき、lock の途中の producer の条件。 -/
theorem holder_update {s : Store w V} {p : Nat} {pc : ProducerPc w V}
    {lock : Option Holder} (hp : ∀ op, pc = .draining op → lock = some (.producer p))
    (hother : ∀ p' op, p' ≠ p → s.producers p' = .draining op → lock = some (.producer p')) :
    ∀ p' op, Function.update s.producers p pc p' = .draining op → lock = some (.producer p') := by
  intro p' op h
  by_cases hp' : p' = p
  · subst hp'
    rw [Function.update_same] at h
    exact hp op h
  · rw [Function.update_noteq hp'] at h
    exact hother p' op hp' h

theorem Good.call (hs : s.Good) {p : Nat} {op : TimerOp w V} (h : s.step (.call p op) = some s') :
    s'.Good := by
  simp only [step] at h
  split at h
  · next hp =>
    cases h
    refine { hs with
      issued := issued_update hs (fun _ _ => rfl) (fun p' h => Function.update_noteq h _ _) ?_
      holder := holder_update (fun _ h => nomatch h) fun p' op _ h => hs.holder p' op h }
    dsimp only
    rw [Function.update_same, hs.issued p, hp]
    simp [ProducerPc.pending]
  · cases h

theorem Good.push (hs : s.Good) {p : Nat} (h : s.step (.push p) = some s') : s'.Good := by
  simp only [step] at h
  split at h
  · next op hp =>
    split at h
    · next q hq =>
      cases h
      obtain ⟨-, hitems, hcap⟩ := BoundedQueue.push_eq_ok.mp hq
      have hle : s.applied ≤ (s.pushed.map Prod.snd).length := by simpa using hs.appliedLe
      refine ⟨?_, ?_, ?_, hs.timers, ?_, ?_, fun start hl => ?_⟩
      · rw [hitems, hs.queued, List.map_append, List.drop_append_of_le_length hle]
        rfl
      · simp only [List.length_append]
        have := hs.appliedLe
        omega
      · rw [hs.ops, List.map_append, List.take_append_of_le_length hle]
      · refine issued_update hs (fun p' h => ?_) (fun _ _ => rfl) ?_
        · simp [List.filter_append, Ne.symm h]
        · simp [List.filter_append, hs.issued p, hp, ProducerPc.pending]
      · exact holder_update (fun _ h => nomatch h) fun p' op _ h => hs.holder p' op h
      · obtain ⟨h1, h2, h3⟩ := hs.holderLoop start hl
        simp only [List.length_append, List.length_singleton, hcap]
        exact ⟨h1, by omega, h3⟩
    · next op' hq =>
      cases h
      obtain ⟨-, rfl⟩ := BoundedQueue.push_eq_error.mp hq
      refine { hs with
        issued := issued_update hs (fun _ _ => rfl) (fun _ _ => rfl) ?_
        holder := holder_update (fun _ h => nomatch h) fun p' op _ h => hs.holder p' op h }
      dsimp only
      rw [hs.issued p, hp]
      rfl
  · cases h

theorem Good.lock (hs : s.Good) {p : Nat} (h : s.step (.lock p) = some s') : s'.Good := by
  simp only [step] at h
  split at h
  · next op hp hl =>
    cases h
    refine { hs with
      issued := issued_update hs (fun _ _ => rfl) (fun _ _ => rfl) ?_
      holder := holder_update (fun _ _ => rfl) fun p' op _ h => ?_
      holderLoop := fun start h => ?_ }
    · dsimp only
      rw [hs.issued p, hp]
      rfl
    · have := hs.holder p' op h
      rw [hl] at this
      cases this
    · have := (hs.holderLoop start h).1
      rw [hl] at this
      cases this
  · cases h

theorem Good.pop (hs : s.Good) (h : s.step .pop = some s') : s'.Good := by
  simp only [step] at h
  split at h
  · next hcond =>
    split at h
    · next op q hq =>
      cases h
      obtain ⟨rest, hitems, rfl⟩ := BoundedQueue.pop_eq_some.mp hq
      have hdrop := hs.queued
      rw [hitems] at hdrop
      have hlen : s.applied < (s.pushed.map Prod.snd).length := by
        have := congrArg List.length hdrop
        simp only [List.length_cons, List.length_drop] at this
        omega
      have hget : (s.pushed.map Prod.snd)[s.applied]? = some op := by
        rw [← List.head?_drop, ← hdrop]
        rfl
      refine ⟨?_, by simpa using hlen, ?_, ?_, hs.issued, hs.holder, fun start hl => ?_⟩
      · rw [BoundedQueue.dropFront_items, hitems, ← List.drop_drop, ← hdrop]
      · rw [List.filterMap_append, hs.ops, List.take_succ, hget]
        rfl
      · rw [hs.timers, replay, replay, List.foldl_append]
        rfl
      · obtain ⟨h1, h2, h3⟩ := hs.holderLoop start hl
        exact ⟨h1, h2, by simp only [BoundedQueue.dropFront_capacity]; omega⟩
    · cases h
  · cases h

theorem Good.unlock (hs : s.Good) {p : Nat} (h : s.step (.unlock p) = some s') : s'.Good := by
  simp only [step] at h
  split at h
  · next op hp =>
    split at h
    · cases h
      have hl := hs.holder p op hp
      refine { hs with
        issued := issued_update hs (fun _ _ => rfl) (fun _ _ => rfl) ?_
        holder := holder_update (fun _ h => nomatch h) fun p' op' hne h => ?_
        holderLoop := fun start h => ?_ }
      · dsimp only
        rw [hs.issued p, hp]
        rfl
      · have := hs.holder p' op' h
        rw [hl] at this
        cases this
        exact absurd rfl hne
      · have := (hs.holderLoop start h).1
        rw [hl] at this
        cases this
    · cases h
  · cases h

theorem Good.loopLock (hs : s.Good) (h : s.step .loopLock = some s') : s'.Good := by
  simp only [step] at h
  split at h
  · next hloop hl =>
    cases h
    refine { hs with
      holder := fun p op h => ?_
      holderLoop := fun start h => ?_ }
    · have := hs.holder p op h
      rw [hl] at this
      cases this
    · cases h
      have hq := congrArg List.length hs.queued
      have := s.queue.length_le
      simp only [List.length_drop, List.length_map] at hq
      exact ⟨rfl, le_rfl, show s.pushed.length + 0 ≤ s.applied + s.queue.capacity by omega⟩
  · cases h

theorem Good.loopSplit (hs : s.Good) {now : ClockReading} (h : s.step (.loopSplit now) = some s') :
    s'.Good := by
  simp only [step] at h
  split at h
  · next start hloop =>
    split at h
    · cases h
      have hl := (hs.holderLoop start hloop).1
      refine { hs with
        ops := by rw [List.filterMap_append, hs.ops]; simp [Event.op?]
        timers := by rw [hs.timers, replay, replay, List.foldl_append]; rfl
        holder := fun p op h => ?_
        holderLoop := fun _ h => nomatch h }
      have := hs.holder p op h
      rw [hl] at this
      cases this
    · cases h
  · cases h

theorem Good.step (hs : s.Good) {a : Action w V} (h : s.step a = some s') : s'.Good := by
  cases a with
  | call p op => exact hs.call h
  | push p => exact hs.push h
  | lock p => exact hs.lock h
  | pop => exact hs.pop h
  | unlock p => exact hs.unlock h
  | loopLock => exact hs.loopLock h
  | loopSplit now => exact hs.loopSplit h

theorem Reachable.good (h : Reachable s) : s.Good := by
  induction h with
  | init capacity h => exact good_init capacity h
  | step a _ hstep ih => exact ih.step hstep

/-- 取り出しを終えた loop では、lock を取る前に積まれていた操作は全部当たっている。 -/
theorem Good.start_le_applied (hs : s.Good) {start : Nat} (hl : s.loop = .draining start)
    (hd : s.drained = true) : start ≤ s.applied := by
  obtain ⟨-, h2, h3⟩ := hs.holderLoop start hl
  simp only [drained, Bool.or_eq_true, beq_iff_eq, List.isEmpty_iff] at hd
  rcases hd with hd | hd
  · omega
  · have := congrArg List.length hs.queued
    simp only [hd, List.length_nil, List.length_drop, List.length_map] at this
    omega

end Store

/-! ## 積まれた順に、一度ずつ -/

namespace Store

variable {s : Store w V}

/-- 届く状態で言えること。 -/
structure Fifo (s : Store w V) : Prop where
  /-- wheel に当てた操作は、積まれた順の前半そのもの：二度当てることも、飛ばすこともない。 -/
  appliedPrefix : s.history.filterMap Event.op? = (s.pushed.map Prod.snd).take s.applied
  /-- 残りは待ち行列に同じ順で並ぶ。 -/
  queued : s.queue.items = (s.pushed.map Prod.snd).drop s.applied
  /-- wheel の意味は、当てた操作と `split_off` を順に空の素の map に当てたもの。 -/
  refines : s.timers.get? = s.history.foldl Event.applyPlain (fun _ => none)
  /-- producer の呼んだ操作は、呼んだ順に積まれているか、まだ手元にある。落ちた操作はない。 -/
  perProducer : ∀ p, s.issued p =
    (s.pushed.filter fun e => e.1 == p).map Prod.snd ++ (s.producers p).pending
  /-- 当てた操作のうち producer `p` のものは、`p` が呼んだ順の前半である。 -/
  appliedInOrder : ∀ p,
    List.IsPrefix (((s.pushed.take s.applied).filter fun e => e.1 == p).map Prod.snd) (s.issued p)
  /-- `process_timers` の取り出しが終わった時、lock を取る前に積まれた操作は全部当たっている。
  その間に誰も積まなければ、当たったのはちょうどそれだけである。 -/
  drainCovers : ∀ start, s.loop = .draining start → s.drained = true →
    start ≤ s.applied ∧ (s.pushed.length = start → s.applied = start)

/-- **二段の置き場は積まれた順に一度ずつ当てる。** 容量が正のどの待ち行列でも、どの数の producer の
`insert_timer` / `remove_timer` と loop の `process_timers` をどう挟んでも（満杯で取り出して
積み直す道を含む）、届く状態は `Fifo` を満たす。 -/
theorem store_fifo (h : Reachable s) : Fifo s := by
  have hs := h.good
  refine ⟨hs.ops, hs.queued, by rw [hs.timers, get?_replay], hs.issued, fun p => ?_,
    fun start hl hd => ?_⟩
  · rw [hs.issued p]
    exact (((List.take_prefix _ _).filter _).map _).trans (List.prefix_append _ _)
  · have hcov := hs.start_le_applied hl hd
    exact ⟨hcov, fun he => by have := hs.appliedLe; omega⟩

/-- 一つの producer と loop で、積んで、`process_timers` で起こし、また積んで取り出した状態。 -/
theorem store_fifo_two_drains :
    ∃ s : Store 64 Nat, (init 1024 (by decide)).runActions
      [.call 0 (.insertTimer ⟨10, by decide, by decide⟩ 1 0), .push 0, .loopLock, .pop,
        .loopSplit ⟨⟨20, by decide, by decide⟩, by decide⟩,
        .call 0 (.insertTimer ⟨30, by decide, by decide⟩ 2 1), .push 0, .loopLock, .pop] = some s ∧
      Reachable s ∧ Fifo s := by
  refine Exists.imp (fun s hs => ⟨hs, ?_⟩) (Option.isSome_iff_exists.mp rfl)
  have hr := (Reachable.init _ _).runActions _ hs
  exact ⟨hr, store_fifo hr⟩

/-- **取り出しの後の wheel は、積まれた操作の前半とは限らない。** 期限 10ns の組を積み、
時刻 20ns の `process_timers` がそれを起こす。次に期限 30ns の組を積み、次の `process_timers` が
取り出しを終えた時（`split_off` の前）、wheel は `(30ns, 2)` の組だけを持つ。積まれた操作は
二つで、その前半（空、一つ目、両方）を空の map に当てたものは、どれもこの wheel ではない。 -/
theorem drain_not_prefix_of_pushed :
    ∃ s : Store 64 Nat, (init 1024 (by decide)).runActions
      [.call 0 (.insertTimer ⟨10, by decide, by decide⟩ 1 0), .push 0, .loopLock, .pop,
        .loopSplit ⟨⟨20, by decide, by decide⟩, by decide⟩,
        .call 0 (.insertTimer ⟨30, by decide, by decide⟩ 2 1), .push 0, .loopLock, .pop] = some s ∧
      Reachable s ∧ s.loop = .draining 2 ∧ s.drained = true ∧
      s.pushed.map Prod.snd = [.insertTimer ⟨10, by decide, by decide⟩ 1 0,
        .insertTimer ⟨30, by decide, by decide⟩ 2 1] ∧
      ∀ n, (applyOps ((s.pushed.map Prod.snd).take n) .empty).entries ≠ s.timers.entries := by
  refine Exists.imp (fun s hs => ⟨hs, ?_⟩) (Option.isSome_iff_exists.mp rfl)
  have key : ∀ {β : Type} (f : Store 64 Nat → β) (b : β), (some s).map f = some b → f s = b :=
    fun _ _ h => Option.some.inj h
  rw [← hs] at key
  have hloop := key (fun s => (s.loop, s.drained)) (.draining 2, true) rfl
  have hpushed := key (fun s => s.pushed.map Prod.snd) [.insertTimer ⟨10, by decide, by decide⟩ 1 0,
    .insertTimer ⟨30, by decide, by decide⟩ 2 1] rfl
  have htimers := key (fun s => s.timers.entries.map fun e : TimerKey 64 × Nat => e.1.deadline.nanos)
    [30] rfl
  refine ⟨(Reachable.init _ _).runActions _ hs, congrArg Prod.fst hloop, congrArg Prod.snd hloop,
    hpushed, fun n h => ?_⟩
  have h' := congrArg (List.map (·.1.deadline.nanos)) h
  simp only at hpushed htimers
  rw [htimers, hpushed] at h'
  rcases n with _ | _ | n
  · exact absurd h' (by decide)
  · exact absurd h' (by decide)
  · rw [List.take_of_length_le (by simp)] at h'
    exact absurd h' (by decide)

end Store

end Staging

end AsyncWinit
