import AsyncWinit.Timer.Basic

/-!
# timer と wheel の持ち主

いくつもの `Timer` が一つの reactor を使う。timer は作られ、任意の waker で poll され、捨てられる。
その間に loop は `process_timers` を呼ぶ。

## 持ち主の印

wheel の値に「登録した timer の番号」を印として付ける。`poll_next` の `clone` を
`fun cx => (cx, i)` にするだけで、reactor の関数はそのまま動く。印の `i` の組が、timer `i` の
持っている組である。

## 不変条件

`Good` は二つのことを言う。

* wheel（待ち行列の操作を当てた後）のどの組も、印の timer の**今の**登録そのものである：
  その timer は生きていて、`id_and_waker = Some((id, w))`、`deadline = Some(d)` で、組は
  `(d, id) ↦ w` である。
* `id_and_waker` を持つ timer は期限を持ち、その waker は最後に poll した waker である。

一つ目から、生きている timer の組は高々一つで、捨てた timer の組はない（`timer_owns_registration`）。
`process_timers` が返すのは wheel の値なので、捨てた timer の waker は返らない。
-/

namespace AsyncWinit

namespace Timer

variable {w : Nat} {V : Type}

/-- **`poll_next` と wheel。** 期限がないときと、登録した waker が今の waker を起こすときは、
何も変えない。それ以外では、抽象の wheel の組は、前の登録の鍵を持たない前からの組か、今回の登録
（鍵は新しい期限と id、値は今の waker の clone）である。新しい `id_and_waker` の waker は今の waker。 -/
theorem pollNext_wheel (clone : Waker → V) (t : Timer w) (r : Reactor w V) (cx : Waker)
    (now : ClockReading) (ht : ∀ id w', t.idAndWaker = some (id, w') → t.deadline.isSome) :
    ((t.pollNext clone r cx now).1 = t ∧ (t.pollNext clone r cx now).2.1 = r ∧
        ∀ id w', t.idAndWaker = some (id, w') → w' = cx) ∨
      ((∀ id w', (t.pollNext clone r cx now).1.idAndWaker = some (id, w') →
          w' = cx ∧ (t.pollNext clone r cx now).1.deadline.isSome) ∧
        ∀ e ∈ (t.pollNext clone r cx now).2.1.abstractWheel.entries,
          (e ∈ r.abstractWheel.entries ∧
              ∀ id w' d, t.idAndWaker = some (id, w') → t.deadline = some d → e.1 ≠ ⟨d, id⟩) ∨
            ∃ id d, (t.pollNext clone r cx now).1.idAndWaker = some (id, cx) ∧
              (t.pollNext clone r cx now).1.deadline = some d ∧ e = (⟨d, id⟩, clone cx)) := by
  rcases t with ⟨_ | ⟨id, w'⟩, _ | d, p⟩
  · exact .inl ⟨rfl, rfl, fun _ _ h => nomatch h⟩
  · simp only [pollNext]
    split_ifs
    · cases hn : d.checkedAdd p with
      | none => exact .inr ⟨fun _ _ h => (nomatch h), fun e he => .inl ⟨he, fun _ _ _ h => nomatch h⟩⟩
      | some next =>
        refine .inr ⟨fun _ _ h => by cases h; simp, fun e he => ?_⟩
        simp only [Reactor.abstractWheel_insertTimer, SortedMap.mem_insert] at he
        rcases he with rfl | ⟨-, he⟩
        · exact .inr ⟨_, _, rfl, rfl, rfl⟩
        · exact .inl ⟨he, fun _ _ _ h => nomatch h⟩
    · refine .inr ⟨fun _ _ h => by cases h; simp, fun e he => ?_⟩
      simp only [Reactor.abstractWheel_insertTimer, SortedMap.mem_insert] at he
      rcases he with rfl | ⟨-, he⟩
      · exact .inr ⟨_, _, rfl, rfl, rfl⟩
      · exact .inl ⟨he, fun _ _ _ h => nomatch h⟩
  · exact absurd (ht id w' rfl) (by simp)
  · have hold : ∀ e ∈ (r.removeTimer d id).abstractWheel.entries,
        e ∈ r.abstractWheel.entries ∧ ∀ id' w'' d', some (id, w') = some (id', w'') →
          some d = some d' → e.1 ≠ ⟨d', id'⟩ := fun e he => by
      simp only [Reactor.abstractWheel_removeTimer, SortedMap.mem_remove] at he
      exact ⟨he.1, fun _ _ _ h1 h2 => by cases h1; cases h2; exact he.2⟩
    simp only [pollNext]
    split_ifs with hlt hww
    · cases hn : d.checkedAdd p with
      | none => exact .inr ⟨fun _ _ h => (nomatch h), fun e he => .inl (hold e he)⟩
      | some next =>
        refine .inr ⟨fun _ _ h => by cases h; simp, fun e he => ?_⟩
        simp only [Reactor.abstractWheel_insertTimer, SortedMap.mem_insert] at he
        rcases he with rfl | ⟨-, he⟩
        · exact .inr ⟨_, _, rfl, rfl, rfl⟩
        · exact .inl (hold e he)
    · refine .inr ⟨fun _ _ h => by cases h; simp, fun e he => ?_⟩
      simp only [Reactor.abstractWheel_insertTimer, SortedMap.mem_insert] at he
      rcases he with rfl | ⟨-, he⟩
      · exact .inr ⟨_, _, rfl, rfl, rfl⟩
      · exact .inl (hold e he)
    · refine .inl ⟨rfl, rfl, fun _ _ h => ?_⟩
      cases h
      simpa [Waker.willWake] using hww

/-- **`Drop` と wheel。** 捨てた timer は `id_and_waker` を持たず、抽象の wheel の組は、
前の登録の鍵を持たない前からの組だけである。 -/
theorem clear_wheel (t : Timer w) (r : Reactor w V) :
    (t.clear r).1.idAndWaker = none ∧ ∀ e ∈ (t.clear r).2.abstractWheel.entries,
      e ∈ r.abstractWheel.entries ∧
        ∀ id w' d, t.idAndWaker = some (id, w') → t.deadline = some d → e.1 ≠ ⟨d, id⟩ := by
  refine ⟨by simp only [clear]; split <;> rfl, fun e he => ?_⟩
  rcases t with ⟨_ | ⟨id, w'⟩, _ | d, p⟩
  · exact ⟨he, fun _ _ _ h => nomatch h⟩
  · exact ⟨he, fun _ _ _ h => nomatch h⟩
  · exact ⟨he, fun _ _ _ _ h => nomatch h⟩
  · simp only [clear, Reactor.abstractWheel_removeTimer, SortedMap.mem_remove] at he
    exact ⟨he.1, fun _ _ _ h1 h2 => by cases h1; cases h2; exact he.2⟩

end Timer

/-! ## timer の集まり -/

/-- 一つの timer の持ち場。番号はリストの位置で、wheel の値の印になる。 -/
structure Slot (w : Nat) where
  timer : Timer w
  /-- まだ捨てていない。 -/
  live : Bool
  /-- 最後に poll した waker。 -/
  lastPolled : Option Waker

/-- timer の集まりと、それが使う reactor。wheel の値は waker と持ち主の番号の組。 -/
structure System (w : Nat) where
  reactor : Reactor w (Waker × Nat)
  slots : List (Slot w)

namespace System

variable {w : Nat}

/-- 作ったばかりの reactor で、timer はまだない。 -/
def init (w : Nat) : System w := ⟨Reactor.new w (Waker × Nat), []⟩

/-- timer を一つ作る。番号は今の個数。 -/
def create (s : System w) (t : Timer w) : System w :=
  { s with slots := s.slots ++ [⟨t, true, none⟩] }

/-- timer `i` を waker `cx` で poll する。`now` は `Instant::now()`。wheel の値には `i` を印に付ける。 -/
def poll (s : System w) (i : Nat) (cx : Waker) (now : ClockReading) : System w :=
  match s.slots[i]? with
  | some slot =>
    if slot.live then
      let res := slot.timer.pollNext (fun cx => (cx, i)) s.reactor cx now
      ⟨res.2.1, s.slots.set i ⟨res.1, true, some cx⟩⟩
    else s
  | none => s

/-- loop が `process_timers` を呼ぶ。 -/
def process (s : System w) (now : ClockReading) : System w :=
  { s with reactor := (s.reactor.processTimers now).1 }

/-- timer `i` を捨てる（`Drop for Timer`）。 -/
def drop (s : System w) (i : Nat) : System w :=
  match s.slots[i]? with
  | some slot =>
    if slot.live then
      let res := slot.timer.clear s.reactor
      ⟨res.2, s.slots.set i ⟨res.1, false, slot.lastPolled⟩⟩
    else s
  | none => s

/-- 初めの状態から、作る・poll する・`process_timers`・捨てるを任意の順に繰り返して届く状態。
作る timer は `Timer::never`、`at`、`after`、`interval`、`interval_at` のどれでもよく、どれも未登録である。 -/
inductive Reachable : System w → Prop
  | init : Reachable (init w)
  | create {s : System w} (t : Timer w) (ht : t.idAndWaker = none) :
      Reachable s → Reachable (s.create t)
  | poll {s : System w} (i : Nat) (cx : Waker) (now : ClockReading) :
      Reachable s → Reachable (s.poll i cx now)
  | process {s : System w} (now : ClockReading) : Reachable s → Reachable (s.process now)
  | drop {s : System w} (i : Nat) : Reachable s → Reachable (s.drop i)

/-- 組 `e` は timer `t` の今の登録である：鍵は今の期限と id、値の waker は登録した waker。 -/
def Registered (t : Timer w) (e : TimerKey w × (Waker × Nat)) : Prop :=
  t.idAndWaker = some (e.1.id, e.2.1) ∧ t.deadline = some e.1.deadline

/-- 系の不変条件。 -/
structure Good (s : System w) : Prop where
  /-- 抽象の wheel のどの組も、印の timer が生きていて、その今の登録である。 -/
  registration : ∀ e ∈ s.reactor.abstractWheel.entries,
    ∃ slot, s.slots[e.2.2]? = some slot ∧ slot.live = true ∧ Registered slot.timer e
  /-- 登録を持つ timer は期限を持ち、登録した waker は最後に poll した waker である。 -/
  polled : ∀ (i : Nat) (slot : Slot w), s.slots[i]? = some slot →
    ∀ id w', slot.timer.idAndWaker = some (id, w') →
      slot.timer.deadline.isSome ∧ slot.lastPolled = some w'

/-! ## 一歩ごとに保たれる -/

theorem good_init : (init w).Good where
  registration := by simp [init, Reactor.abstractWheel_new]
  polled := by simp [init]

/-- 今の登録の鍵を持たない組は、その timer の登録ではない。 -/
theorem not_registered {t : Timer w} {e : TimerKey w × (Waker × Nat)}
    (h : ∀ id w' d, t.idAndWaker = some (id, w') → t.deadline = some d → e.1 ≠ ⟨d, id⟩) :
    ¬ Registered t e :=
  fun ⟨h1, h2⟩ => h _ _ _ h1 h2 rfl

/-- 一つの持ち場を入れ替える。新しい wheel の組が、番号 `i` 以外の前からの組か、
新しい持ち場の登録なら、不変条件は保たれる。 -/
theorem Good.set {s : System w} (hs : s.Good) {i : Nat} {slot' : Slot w} (hi : i < s.slots.length)
    (r' : Reactor w (Waker × Nat))
    (hwheel : ∀ e ∈ r'.abstractWheel.entries, (e ∈ s.reactor.abstractWheel.entries ∧ e.2.2 ≠ i) ∨
      (e.2.2 = i ∧ slot'.live = true ∧ Registered slot'.timer e))
    (hpolled : ∀ id w', slot'.timer.idAndWaker = some (id, w') →
      slot'.timer.deadline.isSome ∧ slot'.lastPolled = some w') :
    (System.mk r' (s.slots.set i slot')).Good where
  registration e he := by
    rcases hwheel e he with ⟨he, hne⟩ | ⟨rfl, hlive, hreg⟩
    · rw [List.getElem?_set_ne hne.symm]
      exact hs.registration e he
    · exact ⟨slot', List.getElem?_set_self hi, hlive, hreg⟩
  polled j slot h := by
    by_cases hj : i = j
    · subst hj
      rw [List.getElem?_set_self hi] at h
      cases h
      exact hpolled
    · rw [List.getElem?_set_ne hj] at h
      exact hs.polled j slot h

theorem Good.create {s : System w} (hs : s.Good) (t : Timer w) (ht : t.idAndWaker = none) :
    (s.create t).Good where
  registration e he := by
    obtain ⟨slot, h, hreg⟩ := hs.registration e he
    exact ⟨slot, by rw [System.create, List.getElem?_append_left (List.getElem?_eq_some_iff.mp h).1, h], hreg⟩
  polled i slot h id w' hid := by
    by_cases hi : i < s.slots.length
    · rw [System.create, List.getElem?_append_left hi] at h
      exact hs.polled i slot h id w' hid
    · rw [System.create, List.getElem?_append_right (not_lt.mp hi)] at h
      obtain ⟨-, rfl⟩ : _ ∧ _ = slot := by simpa [List.getElem?_cons] using h
      simp [ht] at hid

theorem Good.process {s : System w} (hs : s.Good) (now : ClockReading) : (s.process now).Good where
  registration e he := by
    simp only [System.process, Reactor.abstractWheel_processTimers, SortedMap.mem_filterKeys] at he
    exact hs.registration e he.1
  polled := hs.polled

theorem Good.poll {s : System w} (hs : s.Good) (i : Nat) (cx : Waker) (now : ClockReading) :
    (s.poll i cx now).Good := by
  unfold System.poll
  split
  · next slot hi =>
    split
    · next hlive =>
      have hlen := (List.getElem?_eq_some_iff.mp hi).1
      have hpolled := hs.polled i slot hi
      rcases Timer.pollNext_wheel (fun cx => (cx, i)) slot.timer s.reactor cx now
          (fun id w' h => (hpolled id w' h).1) with ⟨ht, hr, hw⟩ | ⟨hnew, hw⟩
      · refine hs.set hlen _ (fun e he => ?_) (fun id w' h => ?_)
        · rw [hr] at he
          by_cases hei : e.2.2 = i
          · obtain ⟨slot₀, h₀, -, hreg⟩ := hs.registration e he
            rw [hei, hi] at h₀
            cases h₀
            exact .inr ⟨hei, rfl, by rw [ht]; exact hreg⟩
          · exact .inl ⟨he, hei⟩
        · rw [ht] at h ⊢
          exact ⟨(hpolled id w' h).1, by rw [hw id w' h]⟩
      · refine hs.set hlen _ (fun e he => ?_) (fun id w' h => ⟨(hnew id w' h).2, by rw [(hnew id w' h).1]⟩)
        rcases hw e he with ⟨he, hkey⟩ | ⟨id, d, hid, hd, rfl⟩
        · refine .inl ⟨he, fun hei => ?_⟩
          obtain ⟨slot₀, h₀, -, hreg⟩ := hs.registration e he
          rw [hei, hi] at h₀
          cases h₀
          exact not_registered hkey hreg
        · exact .inr ⟨rfl, rfl, hid, hd⟩
    · exact hs
  · exact hs

theorem Good.drop {s : System w} (hs : s.Good) (i : Nat) : (s.drop i).Good := by
  unfold System.drop
  split
  · next slot hi =>
    split
    · have hlen := (List.getElem?_eq_some_iff.mp hi).1
      obtain ⟨hnone, hw⟩ := Timer.clear_wheel slot.timer s.reactor
      refine hs.set hlen _ (fun e he => .inl ⟨(hw e he).1, fun hei => ?_⟩) (fun id w' h => ?_)
      · obtain ⟨slot₀, h₀, -, hreg⟩ := hs.registration e (hw e he).1
        rw [hei, hi] at h₀
        cases h₀
        exact not_registered (hw e he).2 hreg
      · rw [hnone] at h
        cases h
    · exact hs
  · exact hs

/-- **どの届く状態でも不変条件が成り立つ。** -/
theorem Reachable.good {s : System w} (h : Reachable s) : s.Good := by
  induction h with
  | init => exact good_init
  | create t ht _ ih => exact ih.create t ht
  | poll i cx now _ ih => exact ih.poll i cx now
  | process now _ ih => exact ih.process now
  | drop i _ ih => exact ih.drop i

/-! ## 持ち主 -/

/-- timer `i`（今の持ち場 `slot`）と抽象の wheel の組の関係。印が `i` の組を、timer `i` の持つ組と呼ぶ。 -/
structure Ownership (s : System w) (i : Nat) (slot : Slot w) : Prop where
  /-- 生きている timer の組は、今の期限 `Some(deadline)` と `id_and_waker = Some((id, w))` の鍵
  `(deadline, id)` と値の waker `w` を持ち、`w` は最後に poll した waker である。 -/
  current : slot.live = true → ∀ e ∈ s.reactor.abstractWheel.entries, e.2.2 = i →
    ∃ id w' d, slot.timer.idAndWaker = some (id, w') ∧ slot.timer.deadline = some d ∧
      e = (⟨d, id⟩, (w', i)) ∧ slot.lastPolled = some w'
  /-- 持つ組は高々一つ。 -/
  atMostOne : ∀ e ∈ s.reactor.abstractWheel.entries, ∀ e' ∈ s.reactor.abstractWheel.entries,
    e.2.2 = i → e'.2.2 = i → e = e'
  /-- 捨てた timer の組はない。 -/
  droppedNone : slot.live = false → ∀ e ∈ s.reactor.abstractWheel.entries, e.2.2 ≠ i
  /-- 捨てた timer の登録した値は、どの `process_timers` も返さない。 -/
  droppedQuiet : slot.live = false → ∀ now, ∀ v ∈ (s.reactor.processTimers now).2.1, v.2 ≠ i

/-- 印が `i` の組は、生きている timer `i` の今の登録である。 -/
theorem Good.owned {s : System w} (hg : s.Good) {i : Nat} {slot : Slot w}
    (hi : s.slots[i]? = some slot) {e : TimerKey w × (Waker × Nat)}
    (he : e ∈ s.reactor.abstractWheel.entries) (hei : e.2.2 = i) :
    slot.live = true ∧ Registered slot.timer e := by
  obtain ⟨slot₀, h₀, hlive, hreg⟩ := hg.registration e he
  rw [hei, hi] at h₀
  cases h₀
  exact ⟨hlive, hreg⟩

/-- **timer の持つ wheel の組。** どの届く状態でも、どの timer `i` についても `Ownership` が成り立つ：
生きている timer の持つ組は今の登録そのもので、その waker は最後に poll した waker、持つ組は高々一つ。
捨てた timer の組はなく、その後のどの `process_timers` の出力にも、その timer の登録した値はない。 -/
theorem timer_owns_registration {s : System w} (h : Reachable s) {i : Nat} {slot : Slot w}
    (hi : s.slots[i]? = some slot) : Ownership s i slot := by
  have hg := h.good
  have hnone : slot.live = false → ∀ e ∈ s.reactor.abstractWheel.entries, e.2.2 ≠ i :=
    fun hdead e he hei => by simpa [hdead] using (hg.owned hi he hei).1
  refine ⟨fun _ e he hei => ?_, fun e he e' he' hei hei' => ?_, hnone, fun hdead now v hv hvi => ?_⟩
  · obtain ⟨-, hid, hd⟩ := hg.owned hi he hei
    exact ⟨_, _, _, hid, hd, by rw [← hei], (hg.polled i slot hi _ _ hid).2⟩
  · obtain ⟨-, hid, hd⟩ := hg.owned hi he hei
    obtain ⟨-, hid', hd'⟩ := hg.owned hi he' hei'
    have hkey : e.1 = e'.1 := TimerKey.ext_iff'.mpr
      ⟨Option.some.inj (hd.symm.trans hd'), (Prod.mk.inj (Option.some.inj (hid.symm.trans hid'))).1⟩
    exact SortedMap.eq_of_mem_of_fst_eq he he' hkey
  · obtain ⟨k, hk⟩ := Reactor.mem_processTimers_out hv
    exact hnone hdead _ hk hvi

/-- 期限 10ns の `Timer::at` を作り、時刻 5ns に waker `⟨0, 0⟩` で poll した系。 -/
def polledOnce : System 64 :=
  ((init 64).create (Timer.at ⟨10, by decide, by decide⟩)).poll 0 ⟨0, 0⟩ ⟨⟨5, by decide, by decide⟩, by decide⟩

/-- そのときの timer の slot：id 1 と waker `⟨0, 0⟩` で登録している。 -/
def polledSlot : Slot 64 :=
  ⟨⟨some (1, ⟨0, 0⟩), some ⟨10, by decide, by decide⟩, Duration.MAX⟩, true, some ⟨0, 0⟩⟩

theorem timer_owns_registration_polled :
    Reachable polledOnce ∧ polledOnce.slots[0]? = some polledSlot ∧ Ownership polledOnce 0 polledSlot :=
  have hr : Reachable polledOnce := Reachable.poll 0 ⟨0, 0⟩ ⟨⟨5, by decide, by decide⟩, by decide⟩ (.create _ rfl .init)
  have hs : polledOnce.slots[0]? = some polledSlot := by
    simp [polledOnce, polledSlot, System.poll, System.create, init, Timer.at, Timer.intervalAt, Timer.pollNext]
    rfl
  ⟨hr, hs, timer_owns_registration hr hs⟩

end System

end AsyncWinit
