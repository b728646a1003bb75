import Mathlib.Logic.Function.Basic
import Mathlib.Data.List.Basic
import Mathlib.Tactic.DeriveFintype

/-!
# window の登録と event の配り先

reactor の `windows: Mutex<HashMap<WindowId, Rc<Registration>>>` と、それを読む三つの関数。

* `insert_window(id)` は新しい `Registration` を `Rc::new` で作り、`id` の所に置いて（前の物は置き換えて）
  その clone を返す。
* `remove_window(id)` は `id` の所を空ける。
* `post_event(event)` は、window の event なら `id` の所の registration を clone して `signal` を呼び、
  なければ何もしない。`Resumed` と `Suspended` は loop 全体の handler に渡し、他は捨てる。

`Registration::signal` は `WindowEvent` の variant ごとに一つの `Handler` の `run_with` を呼ぶ。
`Handler` の中身（`handler.rs`）はここにないので、模型は「どの registration のどの handler が走るか」
までを返す。

## registration の名前

`Rc::new` で作った registration を、作った順の番号で呼ぶ（`next`、幽霊）。同じ `id` に二度
`insert_window` すれば、二つは別の番号になる。

## 結果

* `post_routes_latest` — window の event は、その `id` への最後の `insert_window` が返した registration の
  handler に届く。その後に `remove_window(id)` があれば、event は黙って捨てられる。
* `stale_registration_quiet` — 取り除かれた、または置き換えられた registration には、もう event は届かない。
* `registration_receives_own_events` — registration で走る handler の列は、それが今の registration である間に
  その window に送った event の handler の列そのもので、他の event は混ざらず、一つも落ちない。
-/

namespace AsyncWinit

/-- `winit::window::WindowId`。 -/
structure WindowId where
  raw : Nat
  deriving DecidableEq

/-- `Registration` の field。event の種類ごとの `Handler`。 -/
inductive HandlerKind where
  | redrawRequested | closeRequested | resized | moved | destroyed | focused | receivedCharacter
  | keyboardInput | modifiersChanged | ime | cursorMoved | cursorEntered | cursorLeft | mouseWheel
  | mouseInput | touchpadMagnify | smartMagnify | touchpadRotate | touchpadPressure | axisMotion
  | touch | scaleFactorChanged | themeChanged | occluded
  deriving DecidableEq

/-- `winit::event::WindowEvent` の variant のうち `signal` が見分けるもの。残りは `other`。
中身の値は、どの handler に渡るかに関わらない。 -/
inductive WindowEventKind where
  | redrawRequested | closeRequested | resized | moved | axisMotion | cursorEntered | cursorLeft
  | cursorMoved | destroyed | focused | ime | keyboardInput | modifiersChanged | mouseInput
  | mouseWheel | occluded | scaleFactorChanged | smartMagnify | themeChanged | touch
  | touchpadMagnify | touchpadPressure | touchpadRotate | other
  deriving DecidableEq, Fintype

/-- `Registration::signal`。variant の handler の `run_with` を呼ぶ。`_ => {}` は何も呼ばない。 -/
def signal : WindowEventKind → Option HandlerKind
  | .redrawRequested => some .redrawRequested
  | .closeRequested => some .closeRequested
  | .resized => some .resized
  | .moved => some .moved
  | .axisMotion => some .axisMotion
  | .cursorEntered => some .cursorEntered
  | .cursorLeft => some .cursorLeft
  | .cursorMoved => some .cursorMoved
  | .destroyed => some .destroyed
  | .focused => some .focused
  | .ime => some .ime
  | .keyboardInput => some .keyboardInput
  | .modifiersChanged => some .modifiersChanged
  | .mouseInput => some .mouseInput
  | .mouseWheel => some .mouseWheel
  | .occluded => some .occluded
  | .scaleFactorChanged => some .scaleFactorChanged
  | .smartMagnify => some .smartMagnify
  | .themeChanged => some .themeChanged
  | .touch => some .touch
  | .touchpadMagnify => some .touchpadMagnify
  | .touchpadPressure => some .touchpadPressure
  | .touchpadRotate => some .touchpadRotate
  | .other => none

/-- `signal` は違う variant には違う handler を呼び、`received_character` の handler はどの variant も
呼ばず、`_` の variant は何も呼ばない。 -/
example : (∀ a b : WindowEventKind, signal a = signal b → signal a ≠ none → a = b) ∧
    (∀ k, signal k ≠ some .receivedCharacter) ∧ signal .other = none := by
  decide

/-! ## window の表 -/

/-- reactor の `windows` の表。`windows id` は `id` の所の registration の番号。 -/
structure Registry where
  windows : WindowId → Option Nat
  /-- 次の `Rc::new` の番号（幽霊）。 -/
  next : Nat

/-- `post_event` に来る event。 -/
inductive LoopEvent where
  | windowEvent (id : WindowId) (kind : WindowEventKind)
  | resumed
  | suspended
  | other

/-- event を受けて走る handler。 -/
inductive Target where
  /-- registration `reg` の handler `handler`。 -/
  | window (reg : Nat) (handler : HandlerKind)
  /-- `evl_registration.resumed`。 -/
  | resumed
  /-- `evl_registration.suspended`。 -/
  | suspended
  deriving DecidableEq

namespace Registry

/-- `Reactor::new` の空の表。 -/
def empty : Registry := ⟨fun _ => none, 0⟩

/-- `Reactor::insert_window`。作った registration の番号を返す。 -/
def insertWindow (s : Registry) (id : WindowId) : Registry × Nat :=
  ({ windows := Function.update s.windows id (some s.next), next := s.next + 1 }, s.next)

/-- `Reactor::remove_window`。 -/
def removeWindow (s : Registry) (id : WindowId) : Registry :=
  { s with windows := Function.update s.windows id none }

@[simp] theorem insertWindow_windows (s : Registry) (id : WindowId) :
    (s.insertWindow id).1.windows = Function.update s.windows id (some s.next) := rfl

@[simp] theorem insertWindow_next (s : Registry) (id : WindowId) :
    (s.insertWindow id).1.next = s.next + 1 := rfl

@[simp] theorem removeWindow_windows (s : Registry) (id : WindowId) :
    (s.removeWindow id).windows = Function.update s.windows id none := rfl

@[simp] theorem removeWindow_next (s : Registry) (id : WindowId) :
    (s.removeWindow id).next = s.next := rfl

/-- `Reactor::post_event`。走る handler を返す。`None` なら何も走らない。 -/
def postEvent (s : Registry) : LoopEvent → Option Target
  | .windowEvent id kind => (s.windows id).bind fun reg => (signal kind).map (.window reg)
  | .resumed => some .resumed
  | .suspended => some .suspended
  | .other => none

end Registry

/-- 表に対する呼び出し。 -/
inductive RegistryCall where
  | insertWindow (id : WindowId)
  | removeWindow (id : WindowId)
  | postEvent (event : LoopEvent)

/-- 呼び出しの返り値。 -/
inductive RegistryReply where
  | inserted (reg : Nat)
  | removed
  /-- 走った handler。 -/
  | posted (target : Option Target)

namespace RegistryCall

/-- `id` の所を書き換える呼び出しか。 -/
def touches (id : WindowId) : RegistryCall → Bool
  | insertWindow id' | removeWindow id' => id' == id
  | postEvent _ => false

end RegistryCall

namespace Registry

/-- 一回呼ぶ。 -/
def call (s : Registry) : RegistryCall → Registry × RegistryReply
  | .insertWindow id => ((s.insertWindow id).1, .inserted (s.insertWindow id).2)
  | .removeWindow id => (s.removeWindow id, .removed)
  | .postEvent e => (s, .posted (s.postEvent e))

/-- 列を順に呼ぶ。 -/
def run (s : Registry) : List RegistryCall → Registry × List RegistryReply
  | [] => (s, [])
  | c :: cs => (((s.call c).1.run cs).1, (s.call c).2 :: ((s.call c).1.run cs).2)

theorem run_append (s : Registry) (cs cs' : List RegistryCall) :
    (s.run (cs ++ cs')).1 = ((s.run cs).1.run cs').1 := by
  induction cs generalizing s with
  | nil => rfl
  | cons c cs ih => exact ih _

/-- `id` に触れない呼び出しは `id` の所を変えない。 -/
theorem windows_call_of_not_touches {c : RegistryCall} {id : WindowId} (h : c.touches id = false)
    (s : Registry) : (s.call c).1.windows id = s.windows id := by
  cases c with
  | insertWindow id' =>
    have hne : id ≠ id' := fun he => by simp [RegistryCall.touches, he] at h
    exact Function.update_noteq hne _ _
  | removeWindow id' =>
    have hne : id ≠ id' := fun he => by simp [RegistryCall.touches, he] at h
    exact Function.update_noteq hne _ _
  | postEvent _ => rfl

theorem windows_run_of_not_touches {id : WindowId} :
    ∀ {cs : List RegistryCall}, (∀ c ∈ cs, c.touches id = false) →
      ∀ s : Registry, (s.run cs).1.windows id = s.windows id
  | [], _, _ => rfl
  | c :: cs, h, s => by
    rw [show (s.run (c :: cs)).1 = ((s.call c).1.run cs).1 from rfl,
      windows_run_of_not_touches (fun c' hc' => h c' (.tail _ hc')) _,
      windows_call_of_not_touches (h c (.head _))]

/-- **window の event は今の registration に届く。** どの呼び出しの列 `pre` の後でも、`insert_window(id)` が
番号 `reg` の registration を返し、その後 `id` に触れない呼び出しの列 `mid` が続けば、`id` の event は
registration `reg` の、その variant の handler に届く。`insert_window(id)` の代わりに
`remove_window(id)` なら、`id` の event は何の handler も走らせない。 -/
theorem post_routes_latest (pre mid : List RegistryCall) (id : WindowId) (kind : WindowEventKind)
    (hmid : ∀ c ∈ mid, c.touches id = false) :
    (((empty.run pre).1.insertWindow id).1.run mid).1.postEvent (.windowEvent id kind) =
        (signal kind).map (.window ((empty.run pre).1.insertWindow id).2) ∧
      (((empty.run pre).1.removeWindow id).run mid).1.postEvent (.windowEvent id kind) = none := by
  simp only [postEvent, windows_run_of_not_touches hmid, insertWindow, removeWindow,
    Function.update_same, Option.some_bind, Option.none_bind, and_self]

/-- window 1 を登録し、`Resumed` と window 2 の登録の後で、window 1 の `Resized` を送る。 -/
theorem post_routes_latest_resized :
    (∀ c ∈ [RegistryCall.postEvent .resumed, .insertWindow ⟨2⟩], c.touches ⟨1⟩ = false) ∧
      (((empty.run [.insertWindow ⟨1⟩]).1.insertWindow ⟨1⟩).1.run
          [.postEvent .resumed, .insertWindow ⟨2⟩]).1.postEvent (.windowEvent ⟨1⟩ .resized) =
        (signal .resized).map (.window ((empty.run [.insertWindow ⟨1⟩]).1.insertWindow ⟨1⟩).2) ∧
      (((empty.run [.insertWindow ⟨1⟩]).1.removeWindow ⟨1⟩).run
          [.postEvent .resumed, .insertWindow ⟨2⟩]).1.postEvent (.windowEvent ⟨1⟩ .resized) = none :=
  have h : ∀ c ∈ [RegistryCall.postEvent .resumed, .insertWindow ⟨2⟩], c.touches ⟨1⟩ = false := by
    decide
  ⟨h, post_routes_latest _ _ _ _ h⟩

/-! ## 古い registration -/

/-- 表の不変条件：置いてある番号は `next` より小さく、一つの番号は高々一つの所にある。 -/
structure Good (s : Registry) : Prop where
  below : ∀ id reg, s.windows id = some reg → reg < s.next
  unique : ∀ a b reg, s.windows a = some reg → s.windows b = some reg → a = b

theorem good_empty : empty.Good := ⟨fun _ _ h => (nomatch h), fun _ _ _ h => nomatch h⟩

theorem Good.insertWindow {s : Registry} (hs : s.Good) (id : WindowId) :
    (s.insertWindow id).1.Good where
  below id' reg h := by
    rw [insertWindow_windows, Function.update_apply] at h
    rw [insertWindow_next]
    split_ifs at h
    · cases h
      exact Nat.lt_succ_self _
    · exact Nat.lt_succ_of_lt (hs.below _ _ h)
  unique a b reg ha hb := by
    rw [insertWindow_windows, Function.update_apply] at ha hb
    split_ifs at ha hb with hai hbi hbi
    · rw [hai, hbi]
    · cases ha
      exact absurd (hs.below _ _ hb) (lt_irrefl _)
    · cases hb
      exact absurd (hs.below _ _ ha) (lt_irrefl _)
    · exact hs.unique _ _ _ ha hb

theorem Good.removeWindow {s : Registry} (hs : s.Good) (id : WindowId) : (s.removeWindow id).Good where
  below id' reg h := by
    rw [removeWindow_windows, Function.update_apply] at h
    split_ifs at h
    exact hs.below _ _ h
  unique a b reg ha hb := by
    rw [removeWindow_windows, Function.update_apply] at ha hb
    split_ifs at ha hb
    exact hs.unique _ _ _ ha hb

theorem Good.call {s : Registry} (hs : s.Good) : ∀ c : RegistryCall, (s.call c).1.Good
  | .insertWindow id => hs.insertWindow id
  | .removeWindow id => hs.removeWindow id
  | .postEvent _ => hs

theorem Good.run {s : Registry} (hs : s.Good) : ∀ cs, (s.run cs).1.Good
  | [] => hs
  | c :: cs => (hs.call c).run cs

/-- 番号 `reg` がどの所にもない。 -/
def Gone (s : Registry) (reg : Nat) : Prop := ∀ id, s.windows id ≠ some reg

/-- 表から消えた番号は、どの呼び出しの後も戻らない。新しい registration は `next` の番号を取るからである。 -/
theorem Gone.call {s : Registry} {reg : Nat} (hg : s.Gone reg) (hr : reg < s.next) :
    ∀ c : RegistryCall, (s.call c).1.Gone reg ∧ reg < (s.call c).1.next
  | .insertWindow id => by
    refine ⟨fun id' h => ?_, Nat.lt_succ_of_lt hr⟩
    rw [Registry.call, insertWindow_windows, Function.update_apply] at h
    split_ifs at h
    · cases h
      exact lt_irrefl _ hr
    · exact hg id' h
  | .removeWindow id => by
    refine ⟨fun id' h => ?_, hr⟩
    rw [Registry.call, removeWindow_windows, Function.update_apply] at h
    split_ifs at h
    exact hg id' h
  | .postEvent _ => ⟨hg, hr⟩

theorem Gone.run {s : Registry} {reg : Nat} (hg : s.Gone reg) (hr : reg < s.next) :
    ∀ cs, (s.run cs).1.Gone reg
  | [] => hg
  | c :: cs => (hg.call hr c).1.run (hg.call hr c).2 cs

/-- 番号のない registration の handler には、どの event も届かない。 -/
theorem postEvent_ne_of_gone {s : Registry} {reg : Nat} (hg : s.Gone reg) (e : LoopEvent)
    (h : HandlerKind) : s.postEvent e ≠ some (.window reg h) := by
  cases e with
  | windowEvent id kind =>
    intro he
    simp only [postEvent, Option.bind_eq_some, Option.map_eq_some'] at he
    obtain ⟨reg', hreg', _, -, he⟩ := he
    cases he
    exact hg id hreg'
  | resumed | suspended | other => simp [postEvent]

/-- `id` に触れる呼び出しの後、それまで `id` の所にあった番号はどの所にもない。 -/
theorem Good.gone_call_of_touches {s : Registry} (hs : s.Good) {id : WindowId} {reg : Nat}
    (hid : s.windows id = some reg) {c : RegistryCall} (hc : c.touches id = true) :
    (s.call c).1.Gone reg ∧ reg < (s.call c).1.next := by
  have hnext : reg < s.next := hs.below _ _ hid
  have hother : ∀ id', id' ≠ id → s.windows id' ≠ some reg :=
    fun id' hi h => hi (hs.unique _ _ _ h hid)
  cases c with
  | insertWindow id' =>
    have he : id' = id := by simpa [RegistryCall.touches] using hc
    refine ⟨fun id'' h => ?_, Nat.lt_succ_of_lt hnext⟩
    rw [Registry.call, insertWindow_windows, Function.update_apply, he] at h
    split_ifs at h with hi
    · have := Option.some.inj h
      omega
    · exact hother id'' hi h
  | removeWindow id' =>
    have he : id' = id := by simpa [RegistryCall.touches] using hc
    refine ⟨fun id'' h => ?_, hnext⟩
    rw [Registry.call, removeWindow_windows, Function.update_apply, he] at h
    split_ifs at h with hi
    exact hother id'' hi h
  | postEvent _ => simp [RegistryCall.touches] at hc

/-- **古い registration は黙る。** どの呼び出しの列 `pre` の後でも、`insert_window(id)` が番号 `reg` の
registration を返した後、`id` に触れる呼び出し（`remove_window(id)` か、次の `insert_window(id)`）が
一度でもあれば、その後のどの呼び出しの列の後でも、どの event も registration `reg` の handler を
走らせない。 -/
theorem stale_registration_quiet (pre mid post : List RegistryCall) (id : WindowId)
    (c : RegistryCall) (hc : c.touches id = true) (hmid : ∀ c ∈ mid, c.touches id = false)
    (e : LoopEvent) (h : HandlerKind) :
    ((((empty.run pre).1.insertWindow id).1.run (mid ++ c :: post)).1.postEvent e ≠
      some (.window ((empty.run pre).1.insertWindow id).2 h)) := by
  set s₀ := (empty.run pre).1
  have hid : ((s₀.insertWindow id).1.run mid).1.windows id = some s₀.next := by
    rw [windows_run_of_not_touches hmid, insertWindow_windows, Function.update_same]
  obtain ⟨hgone, hlt⟩ :=
    (((good_empty.run pre).insertWindow id).run mid).gone_call_of_touches hid hc
  rw [run_append]
  exact postEvent_ne_of_gone (hgone.run hlt post) e h

/-- window 1 の registration を取り除き、同じ id で登録し直した後の `Resized` は、古い registration に
届かない。 -/
theorem stale_registration_quiet_reinsert :
    RegistryCall.touches ⟨1⟩ (.removeWindow ⟨1⟩) = true ∧
      (∀ c ∈ ([] : List RegistryCall), c.touches ⟨1⟩ = false) ∧
      (((empty.run []).1.insertWindow ⟨1⟩).1.run ([] ++ .removeWindow ⟨1⟩ :: [.insertWindow ⟨1⟩])).1.postEvent
          (.windowEvent ⟨1⟩ .resized) ≠ some (.window ((empty.run []).1.insertWindow ⟨1⟩).2 .resized) :=
  have hc : RegistryCall.touches ⟨1⟩ (.removeWindow ⟨1⟩) = true := by decide
  have hmid : ∀ c ∈ ([] : List RegistryCall), c.touches ⟨1⟩ = false := fun _ h => nomatch h
  ⟨hc, hmid, stale_registration_quiet [] [] [.insertWindow ⟨1⟩] ⟨1⟩ _ hc hmid _ _⟩

end Registry

/-! ## registration が受け取る handler の列 -/

/-- 返り値が registration `reg` の handler を走らせたなら、その handler。 -/
def RegistryReply.handlerOf (reg : Nat) : RegistryReply → Option HandlerKind
  | .posted (some (.window reg' h)) => if reg' = reg then some h else none
  | _ => none

/-- window `id` に `post_event` で送った event なら、`signal` が呼ぶ handler。 -/
def RegistryCall.eventFor (id : WindowId) : RegistryCall → Option HandlerKind
  | .postEvent (.windowEvent id' kind) => if id' = id then signal kind else none
  | _ => none

namespace Registry

theorem run_replies_append (s : Registry) (cs cs' : List RegistryCall) :
    (s.run (cs ++ cs')).2 = (s.run cs).2 ++ ((s.run cs).1.run cs').2 := by
  induction cs generalizing s with
  | nil => rfl
  | cons c cs ih => exact congrArg (List.cons _) (ih _)

/-- `id` に `reg` がある間、`id` に触れない呼び出しが `reg` で走らせる handler は、`id` に送った event の
handler である。他の window の番号は `reg` と違う（`Good.unique`）。 -/
theorem handlerOf_call {s : Registry} (hs : s.Good) {id : WindowId} {reg : Nat}
    (hid : s.windows id = some reg) {c : RegistryCall} (hc : c.touches id = false) :
    (s.call c).2.handlerOf reg = c.eventFor id := by
  cases c with
  | insertWindow _ | removeWindow _ => rfl
  | postEvent e =>
    cases e with
    | windowEvent id' kind =>
      simp only [call, postEvent, RegistryCall.eventFor]
      by_cases he : id' = id
      · subst he
        rw [hid, if_pos rfl]
        cases signal kind <;> simp [RegistryReply.handlerOf]
      · rw [if_neg he]
        cases hw : s.windows id' with
        | none => rfl
        | some reg' =>
          have hne : reg' ≠ reg := fun hr => he (hs.unique _ _ _ hw (hr ▸ hid))
          cases signal kind <;> simp [RegistryReply.handlerOf, hne]
    | resumed | suspended | other => rfl

/-- `id` に触れる呼び出しは handler を走らせない。 -/
theorem handlerOf_call_of_touches {id : WindowId} {c : RegistryCall} (hc : c.touches id = true)
    (s : Registry) (reg : Nat) : (s.call c).2.handlerOf reg = none := by
  cases c with
  | insertWindow _ | removeWindow _ => rfl
  | postEvent _ => simp [RegistryCall.touches] at hc

/-- どの所にもない番号の handler は、どの呼び出しでも走らない。 -/
theorem handlerOf_call_of_gone {s : Registry} {reg : Nat} (hg : s.Gone reg) :
    ∀ c : RegistryCall, (s.call c).2.handlerOf reg = none
  | .insertWindow _ | .removeWindow _ => rfl
  | .postEvent e => by
    show RegistryReply.handlerOf reg (.posted (s.postEvent e)) = none
    cases ht : s.postEvent e with
    | none => rfl
    | some t =>
      cases t with
      | window reg' h =>
        have hne : reg' ≠ reg := by
          rintro rfl
          exact postEvent_ne_of_gone hg e h ht
        simp [RegistryReply.handlerOf, hne]
      | resumed | suspended => rfl

/-- `id` に `reg` がある状態から `id` に触れない呼び出しを続ける間、`reg` で走る handler の列は、`id` に
送った event の handler の列である。 -/
theorem handlerOf_run {id : WindowId} {reg : Nat} :
    ∀ {cs : List RegistryCall}, (∀ c ∈ cs, c.touches id = false) → ∀ {s : Registry}, s.Good →
      s.windows id = some reg →
        (s.run cs).2.filterMap (RegistryReply.handlerOf reg) = cs.filterMap (RegistryCall.eventFor id)
  | [], _, _, _, _ => rfl
  | c :: cs, h, s, hs, hid => by
    have hc := h c (.head _)
    simp only [run, List.filterMap_cons, handlerOf_call hs hid hc,
      handlerOf_run (fun c' hc' => h c' (.tail _ hc')) (hs.call c)
        ((windows_call_of_not_touches hc s).trans hid)]

theorem Gone.handlerOf_run {reg : Nat} :
    ∀ (cs : List RegistryCall) {s : Registry}, s.Gone reg → reg < s.next →
      (s.run cs).2.filterMap (RegistryReply.handlerOf reg) = []
  | [], _, _, _ => rfl
  | c :: cs, s, hg, hr => by
    simp only [Registry.run, List.filterMap_cons, handlerOf_call_of_gone hg,
      Gone.handlerOf_run cs (hg.call hr c).1 (hg.call hr c).2]

/-- **registration は自分の window の event を、送られた順に、それだけ受け取る。** どの呼び出しの列 `pre` の
後でも、`insert_window(id)` が番号 `reg` の registration を返し、その後 `id` に触れない呼び出しの列 `mid` が
続く間、`reg` で走る handler の列は、`mid` の中で `id` に送った event の handler の列に等しい。他の window の
event も `Resumed` / `Suspended` も `reg` に届かず、`id` の event は一つも落ちず、順も変わらない。`id` に
触れる呼び出し `c` の後は、どの呼び出しの列 `post` が続いても、`reg` の handler はもう走らない。 -/
theorem registration_receives_own_events (pre mid post : List RegistryCall) (id : WindowId)
    (c : RegistryCall) (hc : c.touches id = true) (hmid : ∀ c ∈ mid, c.touches id = false) :
    (((empty.run pre).1.insertWindow id).1.run mid).2.filterMap
        (RegistryReply.handlerOf ((empty.run pre).1.insertWindow id).2) =
      mid.filterMap (RegistryCall.eventFor id) ∧
    (((empty.run pre).1.insertWindow id).1.run (mid ++ c :: post)).2.filterMap
        (RegistryReply.handlerOf ((empty.run pre).1.insertWindow id).2) =
      mid.filterMap (RegistryCall.eventFor id) := by
  have hg := (good_empty.run pre).insertWindow id
  have hid : ((empty.run pre).1.insertWindow id).1.windows id =
      some ((empty.run pre).1.insertWindow id).2 := Function.update_same _ _ _
  have hmid' := handlerOf_run hmid hg hid
  obtain ⟨hgone, hlt⟩ :=
    (hg.run mid).gone_call_of_touches ((windows_run_of_not_touches hmid _).trans hid) hc
  refine ⟨hmid', ?_⟩
  rw [run_replies_append, List.filterMap_append, hmid']
  simp only [run, List.filterMap_cons, handlerOf_call_of_touches hc, Gone.handlerOf_run post hgone hlt,
    List.append_nil]

/-- window 1 を登録し、window 1 の `Resized`、window 2 の登録とその `Resized`、`Resumed`、window 1 の
`CloseRequested` を送ってから window 1 を取り除き、もう一度 window 1 の `Resized` を送る。window 1 の
registration では `resized` と `close_requested` の handler だけが、その順に走る。 -/
theorem registration_receives_own_events_close :
    RegistryCall.touches ⟨1⟩ (.removeWindow ⟨1⟩) = true ∧
      (∀ c ∈ [RegistryCall.postEvent (.windowEvent ⟨1⟩ .resized), .insertWindow ⟨2⟩,
          .postEvent (.windowEvent ⟨2⟩ .resized), .postEvent .resumed,
          .postEvent (.windowEvent ⟨1⟩ .closeRequested)], c.touches ⟨1⟩ = false) ∧
      (((empty.run []).1.insertWindow ⟨1⟩).1.run
          ([.postEvent (.windowEvent ⟨1⟩ .resized), .insertWindow ⟨2⟩,
            .postEvent (.windowEvent ⟨2⟩ .resized), .postEvent .resumed,
            .postEvent (.windowEvent ⟨1⟩ .closeRequested)] ++
            .removeWindow ⟨1⟩ :: [.postEvent (.windowEvent ⟨1⟩ .resized)])).2.filterMap
          (RegistryReply.handlerOf ((empty.run []).1.insertWindow ⟨1⟩).2) =
        [.resized, .closeRequested] :=
  have hc : RegistryCall.touches ⟨1⟩ (.removeWindow ⟨1⟩) = true := by decide
  have hmid : ∀ c ∈ [RegistryCall.postEvent (.windowEvent ⟨1⟩ .resized), .insertWindow ⟨2⟩,
      .postEvent (.windowEvent ⟨2⟩ .resized), .postEvent .resumed,
      .postEvent (.windowEvent ⟨1⟩ .closeRequested)], c.touches ⟨1⟩ = false := by decide
  ⟨hc, hmid,
    (registration_receives_own_events [] _ [.postEvent (.windowEvent ⟨1⟩ .resized)] ⟨1⟩ _ hc hmid).2.trans
      (by decide)⟩

end Registry

end AsyncWinit
