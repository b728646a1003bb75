import AsyncWinit.Reactor.Basic
import Mathlib.Data.BitVec

/-!
# 終了の要求

`exit_code: AtomicI64` は一つの整数に「終了が要る」の印と終了 code を詰める。
印は最下位 bit（`NEEDS_EXIT = 0x1`）、code は `EXIT_CODE_SHIFT = 1` だけ左にずらして入れる。

* `request_exit(code)` は `NEEDS_EXIT | (code as i64) << EXIT_CODE_SHIFT` を書く。
  `code as i64` は符号拡張である。
* `exit_requested()` は印を見て、`(value >> EXIT_CODE_SHIFT) as i32` を返す。
  `i64` の `>>` は算術 shift、`as i32` は下位 32 bit を取る。

## 往復

下位 32 bit だけを見れば、shift で一つずれた code の bit がそのまま戻る。符号拡張で上に
足された bit は切り捨てられるので、負の code も `i32::MIN` も戻る（`exitRequested_requestExit`）。
-/

namespace AsyncWinit

namespace Reactor

variable {w : Nat} {V : Type}

/-- `NEEDS_EXIT: i64 = 0x1`。 -/
def needsExit : BitVec 64 := 1

/-- `EXIT_CODE_SHIFT: u32 = 1`。 -/
def exitCodeShift : Nat := 1

/-- `Reactor::exit_requested`。`i32` は 32 bit の bit 列で表す。 -/
def exitRequested (r : Reactor w V) : Option (BitVec 32) :=
  let value := r.exitCode
  if value &&& needsExit ≠ 0 then some ((value.sshiftRight exitCodeShift).setWidth 32) else none

/-- `Reactor::request_exit`。最後の `notify` は loop を起こすだけである。 -/
def requestExit (r : Reactor w V) (code : BitVec 32) : Reactor w V :=
  let value := needsExit ||| code.signExtend 64 <<< exitCodeShift
  { r with exitCode := value }

/-- 詰めた値の最下位 bit は立っている。 -/
theorem needsExit_set (code : BitVec 32) :
    (needsExit ||| code.signExtend 64 <<< exitCodeShift) &&& needsExit ≠ 0 := by
  intro h
  have := congrArg (fun x => x.getLsbD 0) h
  simp [needsExit] at this

/-- 下位 32 bit の各 bit は、shift で一つ上に置いた code の bit である。 -/
theorem decode_encode (code : BitVec 32) :
    ((needsExit ||| code.signExtend 64 <<< exitCodeShift).sshiftRight exitCodeShift).setWidth 32
      = code := by
  apply BitVec.eq_of_getLsbD_eq
  intro i
  have hi := i.isLt
  simp [BitVec.getLsbD_sshiftRight, BitVec.getLsbD_signExtend, needsExit, exitCodeShift,
    show ¬ 64 ≤ i.val by omega, show 1 + i.val < 64 by omega, show i.val < 64 by omega]

/-- **往復。** `request_exit(code)` の後の `exit_requested()` は、どの `i32` でも `Some(code)`。 -/
@[simp] theorem exitRequested_requestExit (r : Reactor w V) (code : BitVec 32) :
    (r.requestExit code).exitRequested = some code := by
  simp only [exitRequested, requestExit, ne_eq, needsExit_set, not_false_eq_true, ↓reduceIte,
    decode_encode]

@[simp] theorem exitRequested_new : (new w V).exitRequested = none := by
  simp [exitRequested, new, needsExit]

example : (new 64 Unit |>.requestExit 42 |>.requestExit (BitVec.ofInt 32 (-1))).exitRequested =
    some (BitVec.ofInt 32 (-1)) := by decide

/-- **終了の要求は最後の一つが見える。** 新しい reactor に `request_exit(c_1)`, …, `request_exit(c_n)`
を順に呼ぶと、`exit_requested()` は `n = 0` なら `None`、そうでなければ `Some(c_n)` を返す。 -/
theorem exitRequested_requestExits (codes : List (BitVec 32)) :
    (codes.foldl requestExit (new w V)).exitRequested = codes.getLast? := by
  induction codes using List.reverseRecOn with
  | nil => exact exitRequested_new
  | append_singleton codes c _ => simp

end Reactor

end AsyncWinit
