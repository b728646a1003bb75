import AsyncWinit.Timer.Erasure
import AsyncWinit.Reactor.Fresh

/-!
# `Timer` が reactor に呼ぶ列

`insert_timer` と `remove_timer` は `pub(crate)` で、呼ぶのは `timer.rs` の `Timer::clear` と
`Timer::poll_next` だけである。ここでは timer の集まりが reactor に呼ぶ列を書き、`Reactor/Fresh.lean`
の前提 `RemovesIssued` がその列で成り立つことを示す。

1. `clearCalls` と `pollNextCalls` は、一回の `clear` と `poll_next` が呼ぶ `remove_timer` と
   `insert_timer` を、呼ぶ順に並べる。`clear` と `poll_next` の reactor は、その列を呼んだ reactor である。
2. `PlainSystem.callsRun` は出来事の列の間に呼ぶ列をつなぐ。コードそのままの系の reactor は、
   `Reactor::new` からその列を呼んだ reactor である（`runEvents_reactor`）。
3. `Timer` が `remove_timer` に渡すのは `id_and_waker` に持つ id で、それは前の `insert_timer` が
   返した id である（`HoldsIssued`）。よって `callsRun` の列は `RemovesIssued` を満たす。
-/

namespace AsyncWinit

namespace Timer

variable {w : Nat} {V : Type}

/-- `Timer::clear` が呼ぶ `remove_timer`。 -/
def clearCalls (t : Timer w) : List (Call w V) :=
  match t.deadline, t.idAndWaker with
  | some deadline, some (id, _) => [.removeTimer deadline id]
  | _, _ => []

/-- `poll_next` が呼ぶ `remove_timer` と `insert_timer`、呼ぶ順に。 -/
def pollNextCalls (clone : Waker → V) (t : Timer w) (cx : Waker) (now : ClockReading) :
    List (Call w V) :=
  match t.deadline with
  | none => []
  | some deadline =>
    if deadline < now.instant then
      (match t.idAndWaker with
        | some (id, _) => [.removeTimer deadline id]
        | none => []) ++
      match deadline.checkedAdd t.period with
      | some next => [.insertTimer next (clone cx)]
      | none => []
    else
      match t.idAndWaker with
      | none => [.insertTimer deadline (clone cx)]
      | some (id, w) =>
        if !w.willWake cx then [.removeTimer deadline id, .insertTimer deadline (clone cx)] else []

/-- `clear` の reactor は `clearCalls` を呼んだ reactor で、timer は登録を持たない。 -/
theorem clear_calls (t : Timer w) (r : Reactor w V) :
    (t.clear r).2 = (r.run t.clearCalls).1 ∧ (t.clear r).1.idAndWaker = none := by
  rcases t with ⟨_ | ⟨id, w'⟩, _ | d, p⟩ <;> exact ⟨rfl, rfl⟩

/-- `clearCalls` の `remove_timer` が渡すのは、timer の持つ id である。 -/
theorem mem_clearCalls {t : Timer w} {d : Instant} {id : BitVec w}
    (h : (.removeTimer d id : Call w V) ∈ t.clearCalls) : ∃ cx, t.idAndWaker = some (id, cx) := by
  rcases t with ⟨_ | ⟨id', w'⟩, _ | d', p⟩ <;> simp [clearCalls] at h
  exact ⟨w', by rw [h.2]⟩

/-- **`poll_next` の reactor は `pollNextCalls` を呼んだ reactor である。** 後の timer の登録の id は、
前の登録の id か、この回の `insert_timer` が返した id である。 -/
theorem pollNext_calls (clone : Waker → V) (t : Timer w) (r : Reactor w V) (cx : Waker)
    (now : ClockReading) :
    (t.pollNext clone r cx now).2.1 = (r.run (t.pollNextCalls clone cx now)).1 ∧
      ∀ id cx', (t.pollNext clone r cx now).1.idAndWaker = some (id, cx') →
        (∃ v, t.idAndWaker = some (id, v)) ∨
          id ∈ (r.run (t.pollNextCalls clone cx now)).2.flatMap Reply.issued := by
  rcases t with ⟨idw, _ | d, p⟩
  · exact ⟨rfl, fun id cx' h => .inl ⟨cx', h⟩⟩
  rcases idw with _ | ⟨id, w'⟩ <;> simp only [pollNext, pollNextCalls] <;> split_ifs <;>
    (try cases d.checkedAdd p) <;> simp [Reactor.call, Reply.issued]

/-- `pollNextCalls` の `remove_timer` が渡すのは、timer の持つ id である。 -/
theorem mem_pollNextCalls {clone : Waker → V} {t : Timer w} {cx : Waker} {now : ClockReading}
    {d : Instant} {id : BitVec w} (h : .removeTimer d id ∈ t.pollNextCalls clone cx now) :
    ∃ v, t.idAndWaker = some (id, v) := by
  rcases t with ⟨_ | ⟨id', w'⟩, _ | d', p⟩ <;> simp only [pollNextCalls] at h <;>
    (try split_ifs at h) <;> (try split at h) <;> simp_all

end Timer

namespace PlainSystem

variable {w : Nat}

/-- 出来事一つで reactor に呼ぶ列。`process` は loop の `process_timers` である。 -/
def calls (s : PlainSystem w) : SystemEvent → List (Call w Waker)
  | .create _ => []
  | .poll i cx now =>
    match s.slots[i]? with
    | some slot => if slot.live then slot.timer.pollNextCalls id cx now else []
    | none => []
  | .process now => [.processTimers now]
  | .drop i =>
    match s.slots[i]? with
    | some slot => if slot.live then slot.timer.clearCalls else []
    | none => []

/-- 出来事の列の間に reactor に呼ぶ列。 -/
def callsRun (s : PlainSystem w) : List SystemEvent → List (Call w Waker)
  | [] => []
  | e :: es => s.calls e ++ (s.apply e).callsRun es

/-- 出来事一つの後の reactor は、その出来事の呼ぶ列を呼んだ reactor である。 -/
theorem apply_reactor (s : PlainSystem w) (e : SystemEvent) :
    (s.apply e).reactor = (s.reactor.run (s.calls e)).1 := by
  cases e with
  | create c => rfl
  | poll i cx now =>
    simp only [apply, calls]
    rcases s.slots[i]? with _ | slot
    · rfl
    · dsimp only
      split_ifs
      · exact (Timer.pollNext_calls id slot.timer s.reactor cx now).1
      · rfl
  | process now => rfl
  | drop i =>
    simp only [apply, calls]
    rcases s.slots[i]? with _ | slot
    · rfl
    · dsimp only
      split_ifs
      · exact (Timer.clear_calls slot.timer s.reactor).1
      · rfl

/-- **timer の系の reactor は、呼んだ列を呼んだ reactor である。** -/
theorem runEvents_reactor (s : PlainSystem w) (es : List SystemEvent) :
    (s.runEvents es).reactor = (s.reactor.run (s.callsRun es)).1 := by
  induction es generalizing s with
  | nil => rfl
  | cons e es ih => rw [callsRun, Reactor.run_append, ← apply_reactor, ← ih]; rfl

/-- どの timer も、`id_and_waker` に持つ id は、`Reactor::new` から列 `cs` を呼んだ間に
`insert_timer` が返した id である。 -/
def HoldsIssued (s : PlainSystem w) (cs : List (Call w Waker)) : Prop :=
  ∀ slot ∈ s.slots, ∀ id cx, slot.timer.idAndWaker = some (id, cx) →
    id ∈ ((Reactor.new w Waker).run cs).2.flatMap Reply.issued

/-- 列を後ろに足しても、前に返した id は返した id のままである。 -/
theorem mem_issued_append {cs : List (Call w Waker)} (cs' : List (Call w Waker)) {id : BitVec w}
    (h : id ∈ ((Reactor.new w Waker).run cs).2.flatMap Reply.issued) :
    id ∈ ((Reactor.new w Waker).run (cs ++ cs')).2.flatMap Reply.issued := by
  rw [Reactor.run_append, List.flatMap_append]
  exact List.mem_append_left _ h

/-- 一つの slot を差し替えても、差し替えた slot が条件を満たせば条件は残る。 -/
theorem HoldsIssued.set {s : PlainSystem w} {cs : List (Call w Waker)} (h : s.HoldsIssued cs)
    (cs' : List (Call w Waker)) (i : Nat) (slot : Slot w) (r : Reactor w Waker)
    (hslot : ∀ id cx, slot.timer.idAndWaker = some (id, cx) →
      id ∈ ((Reactor.new w Waker).run (cs ++ cs')).2.flatMap Reply.issued) :
    (PlainSystem.mk r (s.slots.set i slot)).HoldsIssued (cs ++ cs') := fun slot' hs id cx hid => by
  rcases List.mem_or_eq_of_mem_set hs with hs | rfl
  · exact mem_issued_append cs' (h slot' hs id cx hid)
  · exact hslot id cx hid

/-- slot `i` の timer が列 `cs'` を呼び、slot を差し替える一歩。`cs'` の `remove_timer` が渡す id を
timer が持ち、後の timer の登録の id が前の登録の id か `cs'` の `insert_timer` が返した id なら、
`cs'` の `remove_timer` は返した id だけを渡し、条件は残る。 -/
theorem HoldsIssued.replace {s : PlainSystem w} {cs : List (Call w Waker)} (h : s.HoldsIssued cs)
    (hr : s.reactor = ((Reactor.new w Waker).run cs).1) {i : Nat} {slot : Slot w}
    (hi : s.slots[i]? = some slot) (cs' : List (Call w Waker)) (slot' : Slot w) (r : Reactor w Waker)
    (hrem : ∀ d id, .removeTimer d id ∈ cs' → ∃ v, slot.timer.idAndWaker = some (id, v))
    (hnew : ∀ id cx, slot'.timer.idAndWaker = some (id, cx) →
      (∃ v, slot.timer.idAndWaker = some (id, v)) ∨ id ∈ (s.reactor.run cs').2.flatMap Reply.issued) :
    (∀ d id, .removeTimer d id ∈ cs' → id ∈ ((Reactor.new w Waker).run cs).2.flatMap Reply.issued) ∧
      (PlainSystem.mk r (s.slots.set i slot')).HoldsIssued (cs ++ cs') := by
  have hslot := h slot (List.getElem?_mem hi)
  refine ⟨fun d n hd => ?_, h.set _ i _ _ fun n cx hn => ?_⟩
  · obtain ⟨v, hv⟩ := hrem d n hd
    exact hslot n v hv
  · rcases hnew n cx hn with ⟨v, hv⟩ | hv
    · exact mem_issued_append _ (hslot n v hv)
    · rw [Reactor.run_append, List.flatMap_append, ← hr]
      exact List.mem_append_right _ hv

/-- **一つの出来事の間に。** 呼ぶ `remove_timer` は前に返した id だけを渡し、後の timer の登録の id も
返した id である。 -/
theorem HoldsIssued.apply {s : PlainSystem w} {cs : List (Call w Waker)} (h : s.HoldsIssued cs)
    (hr : s.reactor = ((Reactor.new w Waker).run cs).1) (e : SystemEvent) :
    (∀ d id, .removeTimer d id ∈ s.calls e → id ∈ ((Reactor.new w Waker).run cs).2.flatMap Reply.issued) ∧
      (s.apply e).HoldsIssued (cs ++ s.calls e) := by
  cases e with
  | create c =>
    refine ⟨(fun _ _ h => nomatch h), fun slot hs id cx hid => ?_⟩
    rcases List.mem_append.mp hs with hs | hs
    · exact mem_issued_append _ (h slot hs id cx hid)
    · rw [List.mem_singleton.mp hs, Ctor.build_idAndWaker] at hid
      cases hid
  | poll i cx now =>
    simp only [PlainSystem.apply, calls]
    cases hi : s.slots[i]? with
    | none => exact ⟨(fun _ _ h => nomatch h), by simpa using h⟩
    | some slot =>
      dsimp only
      split_ifs
      · exact h.replace hr hi _ _ _ (fun _ _ hd => Timer.mem_pollNextCalls hd)
          (Timer.pollNext_calls id slot.timer s.reactor cx now).2
      · exact ⟨(fun _ _ h => nomatch h), by simpa using h⟩
  | process now =>
    exact ⟨fun _ _ h => by simp [calls] at h, fun slot hs id cx hid => mem_issued_append _ (h slot hs id cx hid)⟩
  | drop i =>
    simp only [PlainSystem.apply, calls]
    cases hi : s.slots[i]? with
    | none => exact ⟨(fun _ _ h => nomatch h), by simpa using h⟩
    | some slot =>
      dsimp only
      split_ifs
      · refine h.replace hr hi _ _ _ (fun _ _ hd => Timer.mem_clearCalls hd) fun _ _ hid => ?_
        rw [(Timer.clear_calls slot.timer s.reactor).2] at hid
        cases hid
      · exact ⟨(fun _ _ h => nomatch h), by simpa using h⟩

/-- **timer は発行済みの id だけを `remove_timer` に渡す。** -/
theorem removesIssued_callsRun :
    ∀ (es : List SystemEvent) (s : PlainSystem w) (cs : List (Call w Waker)),
      s.reactor = ((Reactor.new w Waker).run cs).1 → s.HoldsIssued cs → Reactor.RemovesIssued cs →
        Reactor.RemovesIssued (cs ++ s.callsRun es)
  | [], _, cs, _, _, hrem => by simpa [callsRun] using hrem
  | e :: es, s, cs, hr, h, hrem => by
    obtain ⟨he, h'⟩ := h.apply hr e
    have hr' : (s.apply e).reactor = ((Reactor.new w Waker).run (cs ++ s.calls e)).1 := by
      rw [apply_reactor, Reactor.run_append, hr]
    rw [callsRun, ← List.append_assoc]
    exact removesIssued_callsRun es _ _ hr' h' (hrem.append_of he)

/-- `Reactor::new` と空の timer の集まりから、出来事の列 `es` の間に timer が reactor に呼ぶ列。 -/
def timerCalls (w : Nat) (es : List SystemEvent) : List (Call w Waker) := (init w).callsRun es

/-- **timer が呼ぶ列では、id は新しい。** どの出来事の列でも、コードそのままの系の reactor は
`Reactor::new` から `timerCalls` を呼んだ reactor で、その列は `remove_timer` に発行済みの id だけを渡す。
`insert_timer` が `2^w - 1` 回より少なければ、`FreshIds` が言うことに加えて、途中のどの時点でも
wheel と待ち行列の鍵の id は `timer_id` より小さい。 -/
theorem timerCalls_fresh (es : List SystemEvent)
    (hn : Reactor.insertCount (timerCalls w es) < 2 ^ w - 1) :
    ((init w).runEvents es).reactor = ((Reactor.new w Waker).run (timerCalls w es)).1 ∧
      Reactor.RemovesIssued (timerCalls w es) ∧ Reactor.FreshIds (timerCalls w es) ∧
      Reactor.KeysBelow (timerCalls w es) := by
  have hrem : Reactor.RemovesIssued (timerCalls w es) := by
    simpa using removesIssued_callsRun es (init w) [] rfl (fun _ h => nomatch h)
      fun pre _ _ _ h => absurd h (by simp)
  exact ⟨runEvents_reactor (init w) es, hrem, Reactor.freshIds_run _ hn,
    Reactor.keysBelow_run _ hn hrem⟩

end PlainSystem

end AsyncWinit
