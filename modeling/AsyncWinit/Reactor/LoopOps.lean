import AsyncWinit.Reactor.Queue
import Mathlib.Logic.Function.Basic
import Mathlib.Data.List.Nodup

/-!
# event loop への操作の通り道

reactor の `evl_ops` は `channel_bounded(1024)` の有界の channel である。task は
`push_event_loop_op(op).await` で `EventLoopOp` を送り、op に入れた `Complete` の受け手を待つ。
loop は `drain_loop_queue` で channel から容量ぶんまで `try_recv` し、一つずつ `EventLoopOp::run` を呼ぶ。
`run` のどの腕も、window か event loop の target の method を一つ呼び、その結果（または `()`）を
`waker.send` で `Complete` に置く。

## 模型

腕の中身（winit の method）はここにないので `perform : A → T → T × R` に任せる。`A` は腕と
その引数、`T` は loop の thread の側の状態、`R` は `Complete` に置く値である。
`Complete` は番号 `slot` で呼ぶ（`oneoff` の一対を作った順、幽霊）。

* `request` — task が `oneoff` の一対と op を作る。
* `send` — `send(op).await` 一回。満杯の間は進めない（future は待つ）。
* `finish` — `Complete` に値が置かれた後、task の受け手の `.await` が返る。
* `loopStart` / `loopRecv` / `loopStop` — `drain_loop_queue` の `for` の始まり、`try_recv` と `run` 一回、
  終わり（`capacity` 回回ったか、`try_recv` が `None` を返した）。

`send` の後の `notify()` は loop を起こすだけで、模型ではどの一歩もいつでも取れる。

## 幽霊の記録

`nextSlot`、`sent`（送れた op、送れた順）、`ran`（loop が走らせた数）、`answers`（task が受け取った値）
は、どの一歩の分岐も読まない。

## 結果

* `runActions_drain` — 誰も挟まらない loop の一回の `drain_loop_queue` は、逐次の `drainLoopQueue` である。
* `loop_ops_linearizable` — どの task がどう挟んでも、loop は送られた順に一つずつ走らせ、task が受け取った
  どの値も、送られた op を順に一つずつ走らせた時にその op が返す値である。一つの op の値を二度
  受け取ることはなく、一回の `drain_loop_queue` が走らせるのは容量ぶんまでである。
* `request_completes` — 届く状態で loop が休んでいれば、送る前の op は、その task と loop だけが動く道で
  送られ（満杯なら loop が先に channel を空ける）、走り、その値が task に届く。
-/

namespace AsyncWinit

namespace LoopOps

/-- `EventLoopOp`。`slot` は op に入れた `Complete`、`act` は腕とその引数。 -/
structure Request (A : Type) where
  slot : Nat
  act : A

/-- loop の thread の側：target と、`Complete` ごとに置かれた値。 -/
structure World (R T : Type) where
  target : T
  slots : Nat → Option R

/-- task が受け取った値。 -/
structure Answer (A R : Type) where
  task : Nat
  op : Request A
  result : R

section Serial

variable {A R T : Type} (perform : A → T → T × R)

/-- `EventLoopOp::run`。腕の method を target に当て、結果を `Complete::send` で `slot` に置く。 -/
def run (σ : World R T) (op : Request A) : World R T :=
  ⟨(perform op.act σ.target).1, Function.update σ.slots op.slot (some (perform op.act σ.target).2)⟩

/-- `Reactor::drain_loop_queue`。`for _ in 0..capacity` の中で `try_recv` し、`None` なら抜ける。 -/
def drainLoopQueue (σ : World R T) (q : BoundedQueue (Request A)) :
    World R T × BoundedQueue (Request A) :=
  q.drain (run perform) q.capacity σ

/-- op を順に一つずつ走らせた後の target（仕様）。 -/
def serialTarget (t : T) (ops : List (Request A)) : T :=
  ops.foldl (fun t op => (perform op.act t).1) t

/-- `drain_loop_queue` は channel を空にし、中身を送られた順に走らせる。 -/
theorem drainLoopQueue_spec (σ : World R T) (q : BoundedQueue (Request A)) :
    drainLoopQueue perform σ q = (q.items.foldl (run perform) σ, q.dropFront q.items.length) :=
  BoundedQueue.drain_capacity _ _ _

theorem foldl_run_target (ops : List (Request A)) (σ : World R T) :
    (ops.foldl (run perform) σ).target = serialTarget perform σ.target ops := by
  induction ops generalizing σ with
  | nil => rfl
  | cons op ops ih => exact ih _

/-- 走らせない `Complete` の値は変わらない。 -/
theorem foldl_run_slots_of_not_mem {n : Nat} (ops : List (Request A)) (σ : World R T)
    (hn : n ∉ ops.map Request.slot) : (ops.foldl (run perform) σ).slots n = σ.slots n := by
  induction ops generalizing σ with
  | nil => rfl
  | cons op ops ih =>
    simp only [List.map_cons, List.mem_cons, not_or] at hn
    rw [List.foldl_cons, ih _ hn.2]
    exact Function.update_noteq hn.1 _ _

/-- `Complete` が重ならなければ、`i` 番目の op の `Complete` には、前の `i` 個を走らせた後の target で
その op が返す値が置かれる。 -/
theorem foldl_run_slots_of_getElem? (ops : List (Request A)) (σ : World R T)
    (hnd : (ops.map Request.slot).Nodup) {i : Nat} {op : Request A} (hi : ops[i]? = some op) :
    (ops.foldl (run perform) σ).slots op.slot =
      some (perform op.act (serialTarget perform σ.target (ops.take i))).2 := by
  induction ops generalizing σ i with
  | nil => cases hi
  | cons op' ops ih =>
    rw [List.map_cons, List.nodup_cons] at hnd
    cases i with
    | zero =>
      obtain rfl : op' = op := by simpa using hi
      rw [List.foldl_cons, foldl_run_slots_of_not_mem _ _ _ hnd.1]
      exact Function.update_same _ _ _
    | succ i =>
      rw [List.foldl_cons, ih _ hnd.2 (by simpa using hi)]
      rfl

end Serial

/-- task の居場所。 -/
inductive TaskPc (A : Type) where
  | idle
  /-- `send(op).await` の途中。 -/
  | sending (op : Request A)
  /-- 送った後、`Complete` の受け手を待つ。 -/
  | waiting (op : Request A)

/-- loop の居場所。`taken` は `drain_loop_queue` の `for` が回った数。 -/
inductive LoopPc where
  | idle
  | draining (taken : Nat)

/-- task の持つ op。 -/
def TaskPc.op? {A : Type} : TaskPc A → Option (Request A)
  | .idle => none
  | .sending op | .waiting op => some op

/-- channel と、それを使う task たちと loop。 -/
structure Chan (A R T : Type) where
  queue : BoundedQueue (Request A)
  tasks : Nat → TaskPc A
  world : World R T
  loop : LoopPc
  /-- 次の `oneoff` の番号（幽霊）。 -/
  nextSlot : Nat
  /-- 送れた op、送れた順（幽霊）。 -/
  sent : List (Request A)
  /-- loop が走らせた op の数（幽霊）。 -/
  ran : Nat
  /-- task が受け取った値、受け取った順（幽霊）。 -/
  answers : List (Answer A R)

/-- 一歩。 -/
inductive Action (A : Type) where
  | request (t : Nat) (act : A)
  | send (t : Nat)
  | finish (t : Nat)
  | loopStart
  | loopRecv
  | loopStop

/-- 一歩を取る task。loop の一歩なら `none`。 -/
def Action.task? {A : Type} : Action A → Option Nat
  | .request t _ | .send t | .finish t => some t
  | .loopStart | .loopRecv | .loopStop => none

/-- loop の `drain_loop_queue` 一回：`for` に入り、`n` 回 `try_recv` して走らせ、抜ける。 -/
def drainActions {A : Type} (n : Nat) : List (Action A) :=
  .loopStart :: List.replicate n .loopRecv ++ [.loopStop]

theorem task?_of_mem_drainActions {A : Type} {n : Nat} {a : Action A} (h : a ∈ drainActions n) :
    a.task? = none := by
  simp only [drainActions, List.cons_append, List.mem_cons, List.mem_append, List.mem_replicate,
    List.not_mem_nil, or_false] at h
  rcases h with rfl | ⟨-, rfl⟩ | rfl <;> rfl

namespace Chan

variable {A R T : Type} (perform : A → T → T × R)

/-- `Reactor::new` の channel。容量は正。`t₀` は始めの target。 -/
def init (capacity : Nat) (h : 0 < capacity) (t₀ : T) : Chan A R T where
  queue := .bounded capacity h
  tasks := fun _ => .idle
  world := ⟨t₀, fun _ => none⟩
  loop := .idle
  nextSlot := 0
  sent := []
  ran := 0
  answers := []

/-- 一歩進める。できない一歩なら `none`。 -/
def step (s : Chan A R T) : Action A → Option (Chan A R T)
  | .request t act =>
    match s.tasks t with
    | .idle => some { s with
        tasks := Function.update s.tasks t (.sending ⟨s.nextSlot, act⟩), nextSlot := s.nextSlot + 1 }
    | _ => none
  | .send t =>
    match s.tasks t with
    | .sending op =>
      match s.queue.push op with
      | .ok q => some { s with
          queue := q, tasks := Function.update s.tasks t (.waiting op), sent := s.sent ++ [op] }
      | .error _ => none
    | _ => none
  | .finish t =>
    match s.tasks t with
    | .waiting op =>
      match s.world.slots op.slot with
      | some r => some { s with
          tasks := Function.update s.tasks t .idle, answers := s.answers ++ [⟨t, op, r⟩] }
      | none => none
    | _ => none
  | .loopStart =>
    match s.loop with
    | .idle => some { s with loop := .draining 0 }
    | .draining _ => none
  | .loopRecv =>
    match s.loop with
    | .draining taken =>
      if taken < s.queue.capacity then
        match s.queue.pop with
        | some (op, q) => some { s with
            queue := q, world := run perform s.world op, ran := s.ran + 1,
            loop := .draining (taken + 1) }
        | none => none
      else none
    | .idle => none
  | .loopStop =>
    match s.loop with
    | .draining taken =>
      if taken = s.queue.capacity ∨ s.queue.items.isEmpty then some { s with loop := .idle } else none
    | .idle => none

/-- 一歩ずつ順に進める。 -/
def runActions (s : Chan A R T) : List (Action A) → Option (Chan A R T)
  | [] => some s
  | a :: as => (s.step perform a).bind fun s' => s'.runActions as

/-- `Reactor::new` から、どの task の一歩をどう挟んでも届く状態。 -/
inductive Reachable (t₀ : T) : Chan A R T → Prop
  | init (capacity : Nat) (h : 0 < capacity) : Reachable t₀ (init capacity h t₀)
  | step {s s' : Chan A R T} (a : Action A) : Reachable t₀ s → s.step perform a = some s' →
      Reachable t₀ s'

variable {perform} {t₀ : T} {s s' : Chan A R T} {t : Nat} {op : Request A}

theorem Reachable.runActions (h : Reachable perform t₀ s) (as : List (Action A))
    (hs : s.runActions perform as = some s') : Reachable perform t₀ s' := by
  induction as generalizing s with
  | nil => cases hs; exact h
  | cons a as ih =>
    simp only [Chan.runActions, Option.bind_eq_some] at hs
    obtain ⟨s₁, h₁, hs⟩ := hs
    exact ih (h.step a h₁) hs

/-! ## 一歩ずつ -/

theorem runActions_append (s : Chan A R T) (as bs : List (Action A)) :
    s.runActions perform (as ++ bs) = (s.runActions perform as).bind fun s' => s'.runActions perform bs := by
  induction as generalizing s with
  | nil => rfl
  | cons a as ih =>
    show ((s.step perform a).bind fun s' => s'.runActions perform (as ++ bs)) = _
    simp only [runActions, ih, Option.bind_assoc]

theorem runActions_cons_of_step {a : Action A} (h : s.step perform a = some s') (as : List (Action A)) :
    s.runActions perform (a :: as) = s'.runActions perform as := by
  simp only [runActions, h, Option.some_bind]

theorem step_request_iff {act : A} : s.step perform (.request t act) = some s' ↔
    s.tasks t = .idle ∧ s' = { s with
      tasks := Function.update s.tasks t (.sending ⟨s.nextSlot, act⟩), nextSlot := s.nextSlot + 1 } := by
  constructor
  · intro h
    simp only [step] at h
    split at h
    · next ht => exact ⟨ht, (Option.some.inj h).symm⟩
    · cases h
  · rintro ⟨ht, rfl⟩
    simp only [step, ht]

theorem step_send_iff : s.step perform (.send t) = some s' ↔
    ∃ op q, s.tasks t = .sending op ∧ s.queue.push op = .ok q ∧ s' = { s with
      queue := q, tasks := Function.update s.tasks t (.waiting op), sent := s.sent ++ [op] } := by
  constructor
  · intro h
    simp only [step] at h
    split at h
    · next op ht =>
      split at h
      · next q hq => exact ⟨op, q, ht, hq, (Option.some.inj h).symm⟩
      · cases h
    · cases h
  · rintro ⟨op, q, ht, hq, rfl⟩
    simp only [step, ht, hq]

theorem step_finish_iff : s.step perform (.finish t) = some s' ↔
    ∃ op r, s.tasks t = .waiting op ∧ s.world.slots op.slot = some r ∧ s' = { s with
      tasks := Function.update s.tasks t .idle, answers := s.answers ++ [⟨t, op, r⟩] } := by
  constructor
  · intro h
    simp only [step] at h
    split at h
    · next op ht =>
      split at h
      · next r hr => exact ⟨op, r, ht, hr, (Option.some.inj h).symm⟩
      · cases h
    · cases h
  · rintro ⟨op, r, ht, hr, rfl⟩
    simp only [step, ht, hr]

theorem step_loopStart_iff : s.step perform .loopStart = some s' ↔
    s.loop = .idle ∧ s' = { s with loop := .draining 0 } := by
  constructor
  · intro h
    simp only [step] at h
    split at h
    · next hl => exact ⟨hl, (Option.some.inj h).symm⟩
    · cases h
  · rintro ⟨hl, rfl⟩
    simp only [step, hl]

theorem step_loopRecv_iff : s.step perform .loopRecv = some s' ↔
    ∃ taken op rest, s.loop = .draining taken ∧ taken < s.queue.capacity ∧
      s.queue.items = op :: rest ∧ s' = { s with
        queue := s.queue.dropFront 1, world := run perform s.world op, ran := s.ran + 1,
        loop := .draining (taken + 1) } := by
  constructor
  · intro h
    simp only [step] at h
    split at h
    · next taken hl =>
      split at h
      · next hlt =>
        split at h
        · next op q hq =>
          obtain ⟨rest, hitems, rfl⟩ := BoundedQueue.pop_eq_some.mp hq
          exact ⟨taken, op, rest, hl, hlt, hitems, (Option.some.inj h).symm⟩
        · cases h
      · cases h
    · cases h
  · rintro ⟨taken, op, rest, hl, hlt, hq, rfl⟩
    have hpop : s.queue.pop = some (op, s.queue.dropFront 1) :=
      BoundedQueue.pop_eq_some.mpr ⟨rest, hq, rfl⟩
    simp only [step, hl, hlt, if_true, hpop]

theorem step_loopStop_iff : s.step perform .loopStop = some s' ↔
    ∃ taken, s.loop = .draining taken ∧ (taken = s.queue.capacity ∨ s.queue.items = []) ∧
      s' = { s with loop := .idle } := by
  constructor
  · intro h
    simp only [step] at h
    split at h
    · next taken hl =>
      split at h
      · next hd => exact ⟨taken, hl, by simpa using hd, (Option.some.inj h).symm⟩
      · cases h
    · cases h
  · rintro ⟨taken, hl, hd, rfl⟩
    have hd' : taken = s.queue.capacity ∨ s.queue.items.isEmpty = true := by simpa using hd
    simp only [step, hl, hd', if_true]

/-- loop が channel の先頭から `n` 個を順に走らせる。 -/
theorem runActions_recvs (n : Nat) {taken : Nat} (hloop : s.loop = .draining taken)
    (hn : n ≤ s.queue.items.length) (hcap : taken + n ≤ s.queue.capacity) :
    s.runActions perform (List.replicate n .loopRecv) = some { s with
      queue := s.queue.dropFront n, world := (s.queue.items.take n).foldl (run perform) s.world,
      ran := s.ran + n, loop := .draining (taken + n) } := by
  induction n generalizing s taken with
  | zero =>
    cases s
    subst hloop
    simp [runActions]
  | succ n ih =>
    obtain ⟨op, rest, hq⟩ := List.exists_cons_of_length_pos (show 0 < s.queue.items.length by omega)
    rw [List.replicate_succ, runActions_cons_of_step (step_loopRecv_iff.mpr
      ⟨taken, op, rest, hloop, by omega, hq, rfl⟩), ih rfl]
    · simp only [hq, BoundedQueue.dropFront_items, List.drop_one, List.tail_cons, List.take_succ_cons,
        List.foldl_cons, BoundedQueue.dropFront_dropFront, Nat.add_assoc, Nat.add_comm 1 n]
    · simp only [BoundedQueue.dropFront_items, List.length_drop]
      omega
    · simp only [BoundedQueue.dropFront_capacity]
      omega

/-- **loop の一回は `drain_loop_queue` である。** 誰も挟まらなければ、loop の `drain_loop_queue` 一回の
一歩の列は、逐次の `drainLoopQueue` を target と `Complete` たちと channel に当てる。 -/
theorem runActions_drain (hloop : s.loop = .idle) :
    s.runActions perform (drainActions s.queue.items.length) = some { s with
      queue := (drainLoopQueue perform s.world s.queue).2,
      world := (drainLoopQueue perform s.world s.queue).1, ran := s.ran + s.queue.items.length } := by
  rw [drainActions, List.cons_append, runActions_cons_of_step (step_loopStart_iff.mpr ⟨hloop, rfl⟩),
    runActions_append, runActions_recvs _ rfl le_rfl (by simpa using s.queue.length_le),
    Option.some_bind, runActions_cons_of_step (step_loopStop_iff.mpr ⟨_, rfl, .inr (by simp), rfl⟩),
    drainLoopQueue_spec]
  simp [runActions, hloop]

/-- loop の一回の後、channel は空で、中身は走っていて、task と送れた op と受け取った値は変わらない。 -/
theorem exists_drain (perform : A → T → T × R) (hloop : s.loop = .idle) :
    ∃ s', s.runActions perform (drainActions s.queue.items.length) = some s' ∧ s'.queue.items = [] ∧
      s'.queue.capacity = s.queue.capacity ∧ s'.world = s.queue.items.foldl (run perform) s.world ∧
      s'.tasks = s.tasks ∧ s'.loop = .idle ∧ s'.sent = s.sent ∧ s'.answers = s.answers :=
  ⟨_, runActions_drain hloop, by simp [drainLoopQueue_spec], by simp [drainLoopQueue_spec],
    by simp [drainLoopQueue_spec], rfl, hloop, rfl, rfl⟩

/-! ## 不変条件 -/

/-- 通り道の不変条件。`t₀` は始めの target。 -/
structure Good (perform : A → T → T × R) (t₀ : T) (s : Chan A R T) : Prop where
  /-- channel は、送れた op のうちまだ走らせていない後半。 -/
  queued : s.queue.items = s.sent.drop s.ran
  ranLe : s.ran ≤ s.sent.length
  /-- target と `Complete` たちは、走らせた op を送れた順に `run` したもの。 -/
  serial : s.world = (s.sent.take s.ran).foldl (run perform) ⟨t₀, fun _ => none⟩
  sentFresh : ∀ op ∈ s.sent, op.slot < s.nextSlot
  sentNodup : (s.sent.map Request.slot).Nodup
  /-- task の持つ op の `Complete` は作ったもので、二つの task が同じものを持つことはない。 -/
  held : ∀ t op, (s.tasks t).op? = some op → op.slot < s.nextSlot
  heldUnique : ∀ t t' op op', (s.tasks t).op? = some op → (s.tasks t').op? = some op' →
    op.slot = op'.slot → t = t'
  /-- 送る前の op の `Complete` は、送れたどの op のものでもない。 -/
  sending : ∀ t op, s.tasks t = .sending op → op.slot ∉ s.sent.map Request.slot
  /-- 待つ task の op は送れていて、その値はまだ受け取っていない。 -/
  waiting : ∀ t op, s.tasks t = .waiting op →
    op ∈ s.sent ∧ op.slot ∉ s.answers.map fun a => a.op.slot
  /-- 受け取った値は、送れた op の `Complete` に置かれた値である。 -/
  answered : ∀ a ∈ s.answers, a.op ∈ s.sent ∧ s.world.slots a.op.slot = some a.result
  answersNodup : (s.answers.map fun a => a.op.slot).Nodup
  /-- 一回の `drain_loop_queue` は容量ぶんまで回る。 -/
  loopLe : ∀ taken, s.loop = .draining taken → taken ≤ s.queue.capacity

theorem good_init (capacity : Nat) (h : 0 < capacity) :
    Good perform t₀ (init capacity h t₀ : Chan A R T) where
  queued := rfl
  ranLe := le_rfl
  serial := rfl
  sentFresh _ h := nomatch h
  sentNodup := List.nodup_nil
  held _ _ h := nomatch h
  heldUnique _ _ _ _ h := nomatch h
  sending _ _ h := nomatch h
  waiting _ _ h := nomatch h
  answered _ h := nomatch h
  answersNodup := List.nodup_nil
  loopLe _ h := nomatch h

/-- 値の置かれた `Complete` は、走らせた op のものである。 -/
theorem Good.mem_ran_of_slots (hs : Good perform t₀ s) {n : Nat} {r : R}
    (hr : s.world.slots n = some r) : n ∈ (s.sent.take s.ran).map Request.slot := by
  by_contra hn
  rw [hs.serial, foldl_run_slots_of_not_mem _ _ _ hn] at hr
  cases hr

/-- 値の置かれた、送れた op は、走らせた op の `i` 番目で、その値は送られた順に走らせた時のものである。 -/
theorem Good.slots_eq_some (hs : Good perform t₀ s) (hop : op ∈ s.sent) {r : R}
    (hr : s.world.slots op.slot = some r) :
    ∃ i < s.ran, s.sent[i]? = some op ∧
      r = (perform op.act (serialTarget perform t₀ (s.sent.take i))).2 := by
  obtain ⟨op', hop', hslot⟩ := List.mem_map.mp (hs.mem_ran_of_slots hr)
  have he : op' = op :=
    List.inj_on_of_nodup_map hs.sentNodup (List.take_subset _ _ hop') hop hslot
  subst he
  obtain ⟨i, hi⟩ := List.mem_iff_getElem?.mp hop'
  have hlt : i < s.ran := by
    have := (List.getElem?_eq_some_iff.mp hi).1
    simp only [List.length_take] at this
    omega
  refine ⟨i, hlt, by rwa [List.getElem?_take_of_lt hlt] at hi, ?_⟩
  have hnd := hs.sentNodup.sublist ((List.take_sublist s.ran s.sent).map Request.slot)
  rw [hs.serial, foldl_run_slots_of_getElem? _ _ _ hnd hi, List.take_take, min_eq_left hlt.le] at hr
  exact (Option.some.inj hr).symm

/-- task `t` の居場所だけを変えた後の task `t'` の居場所：`t` なら新しいもの、他は前のまま。 -/
theorem update_tasks_eq {tasks : Nat → TaskPc A} {pc x : TaskPc A} {t' : Nat}
    (h : Function.update tasks t pc t' = x) : t' = t ∧ pc = x ∨ t' ≠ t ∧ tasks t' = x := by
  rw [Function.update_apply] at h
  exact ite_eq_iff.mp h

/-- 同じことを、task の持つ op について。 -/
theorem op?_update_eq {tasks : Nat → TaskPc A} {pc : TaskPc A} {t' : Nat}
    (h : (Function.update tasks t pc t').op? = some op) :
    t' = t ∧ pc.op? = some op ∨ t' ≠ t ∧ (tasks t').op? = some op := by
  rw [Function.update_apply] at h
  split_ifs at h with h'
  · exact .inl ⟨h', h⟩
  · exact .inr ⟨h', h⟩

/-- task `t` の居場所だけを変え、持つ op が変わらないなら、持つ op は誰についても変わらない。 -/
theorem op?_update_of_eq {tasks : Nat → TaskPc A} {pc : TaskPc A} (h : pc.op? = (tasks t).op?)
    (t' : Nat) : (Function.update tasks t pc t').op? = (tasks t').op? := by
  rw [Function.update_apply]
  split_ifs with ht
  · rw [ht, h]
  · rfl

theorem Good.request (hs : Good perform t₀ s) (act : A) :
    Good perform t₀ { s with
      tasks := Function.update s.tasks t (.sending ⟨s.nextSlot, act⟩), nextSlot := s.nextSlot + 1 } := by
  refine { hs with
    sentFresh := fun op hop => Nat.lt_succ_of_lt (hs.sentFresh op hop)
    held := fun t' op h => ?_
    heldUnique := fun t₁ t₂ op₁ op₂ h₁ h₂ he => ?_
    sending := fun t' op h => ?_
    waiting := fun t' op h => ?_ }
  · rcases op?_update_eq h with ⟨-, h⟩ | ⟨-, h⟩
    · cases h
      exact Nat.lt_succ_self _
    · exact Nat.lt_succ_of_lt (hs.held t' op h)
  · rcases op?_update_eq h₁ with ⟨e₁, h₁⟩ | ⟨-, h₁⟩ <;> rcases op?_update_eq h₂ with ⟨e₂, h₂⟩ | ⟨-, h₂⟩
    · exact e₁.trans e₂.symm
    · cases h₁
      exact absurd he (ne_of_gt (hs.held t₂ op₂ h₂))
    · cases h₂
      exact absurd he (ne_of_lt (hs.held t₁ op₁ h₁))
    · exact hs.heldUnique t₁ t₂ op₁ op₂ h₁ h₂ he
  · rcases update_tasks_eq h with ⟨-, h⟩ | ⟨-, h⟩
    · cases h
      intro hm
      obtain ⟨op', hop', he⟩ := List.mem_map.mp hm
      exact absurd he (ne_of_lt (hs.sentFresh op' hop'))
    · exact hs.sending t' op h
  · rcases update_tasks_eq h with ⟨-, h⟩ | ⟨-, h⟩
    · cases h
    · exact hs.waiting t' op h

theorem Good.send (hs : Good perform t₀ s) (ht : s.tasks t = .sending op)
    {q : BoundedQueue (Request A)} (hq : s.queue.push op = .ok q) :
    Good perform t₀ { s with
      queue := q, tasks := Function.update s.tasks t (.waiting op), sent := s.sent ++ [op] } := by
  obtain ⟨-, hitems, hcap⟩ := BoundedQueue.push_eq_ok.mp hq
  have hfresh := hs.sending t op ht
  have hop? : ∀ t', (Function.update s.tasks t (.waiting op) t').op? = (s.tasks t').op? :=
    op?_update_of_eq (by rw [ht]; rfl)
  -- 他の task の持つ op は、いま送った op と `Complete` が違う
  have hother : ∀ t' op', t' ≠ t → (s.tasks t').op? = some op' → op'.slot ≠ op.slot :=
    fun t' op' hne h he => hne (hs.heldUnique t' t op' op h (by rw [ht]; rfl) he)
  refine ⟨?_, ?_, ?_, ?_, ?_, fun t' op' h => ?_, fun t₁ t₂ op₁ op₂ h₁ h₂ => ?_,
    fun t' op' h => ?_, fun t' op' h => ?_, fun a ha => ?_, hs.answersNodup, ?_⟩
  · rw [hitems, hs.queued, List.drop_append_of_le_length hs.ranLe]
  · simp only [List.length_append]
    have := hs.ranLe
    omega
  · rw [List.take_append_of_le_length hs.ranLe]
    exact hs.serial
  · intro op' hop'
    rcases List.mem_append.mp hop' with hop' | hop'
    · exact hs.sentFresh op' hop'
    · rw [List.mem_singleton.mp hop']
      exact hs.held t op (by rw [ht]; rfl)
  · rw [List.map_append, List.nodup_append]
    exact ⟨hs.sentNodup, List.nodup_singleton _, List.disjoint_singleton.mpr hfresh⟩
  · exact hs.held t' op' ((hop? t').symm.trans h)
  · exact hs.heldUnique t₁ t₂ op₁ op₂ ((hop? t₁).symm.trans h₁) ((hop? t₂).symm.trans h₂)
  · rcases update_tasks_eq h with ⟨-, h⟩ | ⟨h', h⟩
    · cases h
    · simp only [List.map_append, List.mem_append, List.map_singleton, List.mem_singleton, not_or]
      exact ⟨hs.sending t' op' h, hother t' op' h' (by rw [h]; rfl)⟩
  · rcases update_tasks_eq h with ⟨-, h⟩ | ⟨-, h⟩
    · cases h
      refine ⟨List.mem_append_right _ (List.mem_singleton_self _), fun hm => ?_⟩
      obtain ⟨a, ha, he⟩ := List.mem_map.mp hm
      exact hfresh (he ▸ List.mem_map_of_mem _ (hs.answered a ha).1)
    · exact ⟨List.mem_append_left _ (hs.waiting t' op' h).1, (hs.waiting t' op' h).2⟩
  · exact ⟨List.mem_append_left _ (hs.answered a ha).1, (hs.answered a ha).2⟩
  · intro taken hl
    rw [hcap]
    exact hs.loopLe taken hl

theorem Good.finish (hs : Good perform t₀ s) (ht : s.tasks t = .waiting op) {r : R}
    (hr : s.world.slots op.slot = some r) :
    Good perform t₀ { s with
      tasks := Function.update s.tasks t .idle, answers := s.answers ++ [⟨t, op, r⟩] } := by
  -- 休みに戻った `t` の他は、居場所も持つ op も前のまま
  have hupd : ∀ t' op', (Function.update s.tasks t .idle t').op? = some op' →
      t' ≠ t ∧ (s.tasks t').op? = some op' :=
    fun _ _ h => (op?_update_eq h).resolve_left fun ⟨_, h⟩ => nomatch h
  have hpc : ∀ t' pc, Function.update s.tasks t .idle t' = pc → pc ≠ .idle →
      t' ≠ t ∧ s.tasks t' = pc :=
    fun _ _ h hpc => (update_tasks_eq h).resolve_left fun ⟨_, h⟩ => hpc h.symm
  refine { hs with
    held := fun t' op' h => hs.held t' op' (hupd t' op' h).2
    heldUnique := fun t₁ t₂ op₁ op₂ h₁ h₂ => hs.heldUnique t₁ t₂ op₁ op₂ (hupd _ _ h₁).2 (hupd _ _ h₂).2
    sending := fun t' op' h => hs.sending t' op' (hpc t' _ h nofun).2
    waiting := fun t' op' h => ?_
    answered := fun a ha => ?_
    answersNodup := ?_ }
  · obtain ⟨hne, h⟩ := hpc t' _ h nofun
    refine ⟨(hs.waiting t' op' h).1, ?_⟩
    rw [List.map_append, List.mem_append, not_or, List.map_singleton, List.mem_singleton]
    exact ⟨(hs.waiting t' op' h).2,
      fun he => hne (hs.heldUnique t' t op' op (by rw [h]; rfl) (by rw [ht]; rfl) he)⟩
  · rcases List.mem_append.mp ha with ha | ha
    · exact hs.answered a ha
    · rw [List.mem_singleton.mp ha]
      exact ⟨(hs.waiting t op ht).1, hr⟩
  · rw [List.map_append, List.nodup_append]
    exact ⟨hs.answersNodup, List.nodup_singleton _, List.disjoint_singleton.mpr (hs.waiting t op ht).2⟩

theorem Good.recv (hs : Good perform t₀ s) {taken : Nat} (hlt : taken < s.queue.capacity)
    {rest : List (Request A)} (hq : s.queue.items = op :: rest) :
    Good perform t₀ { s with
      queue := s.queue.dropFront 1, world := run perform s.world op, ran := s.ran + 1,
      loop := .draining (taken + 1) } := by
  have hdrop := hs.queued
  rw [hq] at hdrop
  have hget : s.sent[s.ran]? = some op := by
    rw [← List.head?_drop, ← hdrop]
    rfl
  have hlen : s.ran < s.sent.length := (List.getElem?_eq_some_iff.mp hget).1
  -- 走らせる op の `Complete` には、まだ何も置かれていない
  have hnew : op.slot ∉ (s.sent.take s.ran).map Request.slot := by
    have hnd := hs.sentNodup
    rw [← List.take_append_drop s.ran s.sent, List.map_append, List.nodup_append] at hnd
    exact fun hm => hnd.2.2 hm (List.mem_map_of_mem _ (hdrop ▸ List.mem_cons_self _ _))
  refine { hs with
    queued := by rw [BoundedQueue.dropFront_items, hq, List.drop_one, List.tail_cons, ← List.drop_drop,
      ← hdrop, List.drop_one, List.tail_cons]
    ranLe := hlen
    serial := by rw [List.take_succ, hget, Option.toList_some, List.foldl_append, ← hs.serial]; rfl
    answered := fun a ha => ⟨(hs.answered a ha).1, ?_⟩
    loopLe := fun taken' h => ?_ }
  · have hne : a.op.slot ≠ op.slot :=
      fun he => hnew (he ▸ hs.mem_ran_of_slots (hs.answered a ha).2)
    exact (Function.update_noteq hne _ _).trans (hs.answered a ha).2
  · cases h
    exact hlt

theorem Good.step (hs : Good perform t₀ s) {a : Action A} (h : s.step perform a = some s') :
    Good perform t₀ s' := by
  cases a with
  | request t act =>
    obtain ⟨-, rfl⟩ := step_request_iff.mp h
    exact hs.request act
  | send t =>
    obtain ⟨op, q, ht, hq, rfl⟩ := step_send_iff.mp h
    exact hs.send ht hq
  | finish t =>
    obtain ⟨op, r, ht, hr, rfl⟩ := step_finish_iff.mp h
    exact hs.finish ht hr
  | loopStart =>
    obtain ⟨-, rfl⟩ := step_loopStart_iff.mp h
    exact { hs with loopLe := fun _ h => by cases h; exact Nat.zero_le _ }
  | loopRecv =>
    obtain ⟨taken, op, rest, -, hlt, hq, rfl⟩ := step_loopRecv_iff.mp h
    exact hs.recv hlt hq
  | loopStop =>
    obtain ⟨-, -, -, rfl⟩ := step_loopStop_iff.mp h
    exact { hs with loopLe := fun _ h => nomatch h }

theorem Reachable.good (h : Reachable perform t₀ s) : Good perform t₀ s := by
  induction h with
  | init capacity h => exact good_init capacity h
  | step a _ hstep ih => exact ih.step hstep

/-! ## 送られた順に、一度ずつ -/

/-- 届く状態で言えること。 -/
structure Linearizable (perform : A → T → T × R) (t₀ : T) (s : Chan A R T) : Prop where
  /-- loop が走らせた op は送られた順の前半で、残りは channel に同じ順で並ぶ。 -/
  fifo : s.ran ≤ s.sent.length ∧ s.queue.items = s.sent.drop s.ran
  /-- target は、走らせた op を送られた順に一つずつ当てたもの。 -/
  target : s.world.target = serialTarget perform t₀ (s.sent.take s.ran)
  /-- task が受け取ったどの値も、その op を送られた順の位置 `i` で、前の `i` 個の後に走らせた時の値である。 -/
  answers : ∀ a ∈ s.answers, ∃ i < s.ran, s.sent[i]? = some a.op ∧
    a.result = (perform a.op.act (serialTarget perform t₀ (s.sent.take i))).2
  /-- 一つの op の値を二度受け取ることはない。 -/
  once : (s.answers.map fun a => a.op.slot).Nodup
  /-- 一回の `drain_loop_queue` が走らせるのは容量ぶんまで。 -/
  bounded : ∀ taken, s.loop = .draining taken → taken ≤ s.queue.capacity

/-- **event loop の操作は送られた順に一度ずつ走る。** 容量が正のどの channel でも、どの数の task の
`push_event_loop_op` と受け手の `.await` を loop の `drain_loop_queue` とどう挟んでも、届く状態は
`Linearizable` を満たす：task が受け取った値は、送られた op を送られた順に一つずつ走らせた時の値である。 -/
theorem loop_ops_linearizable (h : Reachable perform t₀ s) : Linearizable perform t₀ s := by
  have hs := h.good
  refine ⟨⟨hs.ranLe, hs.queued⟩, by rw [hs.serial, foldl_run_target], fun a ha => ?_, hs.answersNodup,
    hs.loopLe⟩
  exact hs.slots_eq_some (hs.answered a ha).1 (hs.answered a ha).2

/-- 二つの task が op を送り、後から送った方が先に走り、どちらも値を受け取った状態。 -/
theorem loop_ops_linearizable_two :
    ∃ s : Chan Nat Nat Nat, (init 2 (by decide) 0).runActions (fun a t => (t + a, t))
      [.request 0 5, .request 1 7, .send 1, .send 0, .loopStart, .loopRecv, .loopRecv, .loopStop,
        .finish 0, .finish 1] = some s ∧
      Reachable (fun a t => (t + a, t)) 0 s ∧ Linearizable (fun a t => (t + a, t)) 0 s := by
  refine Exists.imp (fun s hs => ⟨hs, ?_⟩) (Option.isSome_iff_exists.mp rfl)
  have hr := (Reachable.init _ _).runActions _ hs
  exact ⟨hr, loop_ops_linearizable hr⟩

/-! ## 送る前の op は値を受け取る -/

/-- **送る前の op は走り、値が届く。** 届く状態で loop が休んでいれば、task `t` の送る前の op は、`t` と
loop だけが動く道で送られ（満杯でも、loop が先に channel を空ける）、走り、`t` はその値を受け取る。
値は、それまでに送られたどの op よりも後に走らせた時の値である。 -/
theorem request_completes (h : Reachable perform t₀ s) (ht : s.tasks t = .sending op)
    (hloop : s.loop = .idle) :
    ∃ as s', s.runActions perform as = some s' ∧ (∀ a ∈ as, a.task? = none ∨ a.task? = some t) ∧
      s'.sent = s.sent ++ [op] ∧ s'.tasks t = .idle ∧ s'.queue.items = [] ∧ s'.loop = .idle ∧
      s'.answers = s.answers ++ [⟨t, op, (perform op.act (serialTarget perform t₀ s.sent)).2⟩] := by
  have hs := h.good
  -- loop が channel を空にする
  obtain ⟨s₁, h₁, hq₁, hcap₁, hw₁, htasks₁, hloop₁, hsent₁, hans₁⟩ := exists_drain perform hloop
  obtain ⟨q, hq, hitems, -⟩ := BoundedQueue.exists_push_eq_ok (q := s₁.queue)
    (by rw [hq₁, hcap₁]; exact s.queue.capacity_pos) op
  -- `t` が送る
  obtain ⟨s₂, h₂, hloop₂, htasks₂, hq₂, hw₂, hsent₂, hans₂⟩ : ∃ s₂, s₁.step perform (.send t) = some s₂ ∧
      s₂.loop = .idle ∧ s₂.tasks = Function.update s₁.tasks t (.waiting op) ∧ s₂.queue = q ∧
      s₂.world = s₁.world ∧ s₂.sent = s₁.sent ++ [op] ∧ s₂.answers = s₁.answers :=
    ⟨_, step_send_iff.mpr ⟨op, q, htasks₁ ▸ ht, hq, rfl⟩, hloop₁, rfl, rfl, rfl, rfl, rfl⟩
  -- loop が `t` の op を走らせる
  obtain ⟨s₃, h₃, hq₃, -, hw₃, htasks₃, hloop₃, hsent₃, hans₃⟩ := exists_drain perform hloop₂
  have hr : s₃.world.slots op.slot = some (perform op.act (serialTarget perform t₀ s.sent)).2 := by
    rw [hw₃, hq₂, hitems, hq₁, List.nil_append, List.foldl_cons, List.foldl_nil, hw₂, hw₁, hs.queued,
      hs.serial, ← List.foldl_append, List.take_append_drop]
    simp only [run, Function.update_same, foldl_run_target]
  -- `t` が値を受け取る
  obtain ⟨s₄, h₄, htasks₄, hans₄, hsent₄, hq₄, hloop₄⟩ : ∃ s₄, s₃.step perform (.finish t) = some s₄ ∧
      s₄.tasks = Function.update s₃.tasks t .idle ∧
      s₄.answers = s₃.answers ++ [⟨t, op, (perform op.act (serialTarget perform t₀ s.sent)).2⟩] ∧
      s₄.sent = s₃.sent ∧ s₄.queue = s₃.queue ∧ s₄.loop = s₃.loop :=
    ⟨_, step_finish_iff.mpr ⟨op, _, by rw [htasks₃, htasks₂]; exact Function.update_same _ _ _, hr, rfl⟩,
      rfl, rfl, rfl, rfl, rfl⟩
  refine ⟨drainActions s.queue.items.length ++ .send t :: (drainActions s₂.queue.items.length ++ [.finish t]),
    s₄, ?_, fun a ha => ?_, by rw [hsent₄, hsent₃, hsent₂, hsent₁], by simp [htasks₄],
    by rw [hq₄, hq₃], hloop₄.trans hloop₃, by rw [hans₄, hans₃, hans₂, hans₁]⟩
  · rw [runActions_append, h₁, Option.some_bind, runActions_cons_of_step h₂, runActions_append, h₃,
      Option.some_bind, runActions_cons_of_step h₄]
    rfl
  · simp only [List.mem_append, List.mem_cons, List.mem_singleton, List.not_mem_nil, or_false] at ha
    rcases ha with ha | rfl | ha | rfl
    · exact .inl (task?_of_mem_drainActions ha)
    · exact .inr rfl
    · exact .inl (task?_of_mem_drainActions ha)
    · exact .inr rfl

/-- 容量 1 の channel に task 0 が op を送り、task 1 が次の op を作った状態。channel は満杯なので、
task 1 は loop が channel を空けるまで送れない。 -/
theorem request_completes_full :
    ∃ s : Chan Nat Nat Nat, (init 1 (by decide) 0).runActions (fun a t => (t + a, t))
      [.request 0 5, .send 0, .request 1 7] = some s ∧
      Reachable (fun a t => (t + a, t)) 0 s ∧ s.tasks 1 = .sending ⟨1, 7⟩ ∧ s.loop = .idle ∧
      s.queue.items.length = s.queue.capacity ∧
      ∃ as s', s.runActions (fun a t => (t + a, t)) as = some s' ∧
        (∀ a ∈ as, a.task? = none ∨ a.task? = some 1) ∧ s'.sent = s.sent ++ [⟨1, 7⟩] ∧
        s'.tasks 1 = .idle ∧ s'.queue.items = [] ∧ s'.loop = .idle ∧
        s'.answers = s.answers ++ [⟨1, ⟨1, 7⟩, serialTarget (fun a t => (t + a, t)) 0 s.sent⟩] := by
  refine Exists.imp (fun s hs => ⟨hs, ?_⟩) (Option.isSome_iff_exists.mp rfl)
  have key : ∀ {β : Type} (f : Chan Nat Nat Nat → β) (b : β), (some s).map f = some b → f s = b :=
    fun _ _ h => Option.some.inj h
  rw [← hs] at key
  have hr := (Reachable.init _ _).runActions _ hs
  have ht := key (fun s => s.tasks 1) (.sending ⟨1, 7⟩) rfl
  have hstate := key (fun s => (s.loop, s.queue.items.length, s.queue.capacity)) (.idle, 1, 1) rfl
  simp only [Prod.mk.injEq] at hstate
  obtain ⟨hloop, hlen, hcap⟩ := hstate
  exact ⟨hr, ht, hloop, hlen.trans hcap.symm, request_completes hr ht hloop⟩

end Chan

end LoopOps

end AsyncWinit
