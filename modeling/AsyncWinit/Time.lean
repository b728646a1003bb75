import Mathlib.Order.Basic
import Mathlib.Order.Lattice
import Mathlib.Algebra.Group.Int
import Mathlib.Algebra.Group.Nat.Basic

/-!
# 時刻と時間の長さ

`std::time::Instant` と `std::time::Duration` のモデル。reactor と timer はこの二つしか使わない。

## 表現

unix の `Instant` は `Timespec { tv_sec: i64, tv_nsec: u32 }`（`tv_nsec < 10^9`）である。
比較は `(tv_sec, tv_nsec)` の辞書式なので、総ナノ秒 `tv_sec * 10^9 + tv_nsec` の `Int` と
一対一に対応し、順序もそのまま写る。ここではその `Int` を持ち、範囲を field に入れる。

`Duration` は `(secs: u64, nanos: u32)` で、同じく総ナノ秒の `Nat` で持つ。

## 溢れ

`Instant::checked_add` は `tv_sec.checked_add_unsigned(secs)` と繰り上がりの `checked_add(1)` で
できている。どちらかが溢れるのは、和が `maxNanos` を超えるときに限る。だから
`checkedAdd` は和が範囲に入るかどうかだけを見る。

## 時計

`Instant::now()` は `CLOCK_MONOTONIC` を読む。kernel はこれを 64 bit のナノ秒で数えるので、
読んだ値が最大の `Instant` になることはない。`ClockReading` はこの約束を field に持ち、
`process_timers` の `now + Duration::from_nanos(1)` が panic しないことを保証する。
-/

namespace AsyncWinit

/-- `Instant` の最小値（ナノ秒）。`tv_sec = i64::MIN`、`tv_nsec = 0`。 -/
def Instant.minNanos : Int := -(2 ^ 63) * 10 ^ 9

/-- `Instant` の最大値。`tv_sec = i64::MAX`、`tv_nsec = 999_999_999`。 -/
def Instant.maxNanos : Int := (2 ^ 63 - 1) * 10 ^ 9 + (10 ^ 9 - 1)

/-- `std::time::Instant`。範囲の外の値は作れない。 -/
structure Instant where
  nanos : Int
  min_le : Instant.minNanos ≤ nanos
  le_max : nanos ≤ Instant.maxNanos

/-- `Duration::MAX` の総ナノ秒。`secs = u64::MAX`、`nanos = 999_999_999`。 -/
def Duration.maxNanos : Nat := (2 ^ 64 - 1) * 10 ^ 9 + (10 ^ 9 - 1)

/-- `std::time::Duration`。 -/
structure Duration where
  nanos : Nat
  le_max : nanos ≤ Duration.maxNanos

namespace Instant

theorem nanos_injective : Function.Injective Instant.nanos := by
  rintro ⟨a, _, _⟩ ⟨b, _, _⟩ h
  cases h
  rfl

@[ext] theorem ext {a b : Instant} (h : a.nanos = b.nanos) : a = b := nanos_injective h

/-- 比較は総ナノ秒の比較である。 -/
instance : LinearOrder Instant := LinearOrder.lift' Instant.nanos nanos_injective

@[simp] theorem lt_iff (a b : Instant) : a < b ↔ a.nanos < b.nanos := Iff.rfl

@[simp] theorem le_iff (a b : Instant) : a ≤ b ↔ a.nanos ≤ b.nanos := Iff.rfl

/-- `Instant::checked_add`。和が範囲を超えると `None`。 -/
def checkedAdd (t : Instant) (d : Duration) : Option Instant :=
  if h : t.nanos + d.nanos ≤ maxNanos then
    some ⟨t.nanos + d.nanos, by have := t.min_le; omega, h⟩
  else none

theorem checkedAdd_eq_some {t : Instant} {d : Duration} {u : Instant} :
    t.checkedAdd d = some u ↔ u.nanos = t.nanos + d.nanos := by
  unfold checkedAdd
  split
  · exact ⟨fun h => by cases h; rfl, fun h => by rw [Option.some.injEq, Instant.ext_iff, h]⟩
  · refine ⟨nofun, fun h => ?_⟩
    have := u.le_max
    omega

theorem checkedAdd_eq_none {t : Instant} {d : Duration} :
    t.checkedAdd d = none ↔ maxNanos < t.nanos + d.nanos := by
  unfold checkedAdd
  split <;> simp only [reduceCtorEq, true_iff, false_iff] <;> omega

end Instant

namespace Duration

/-- `Duration::MAX`。 -/
def MAX : Duration := ⟨maxNanos, Nat.le_refl _⟩

@[simp] theorem MAX_nanos : MAX.nanos = maxNanos := rfl

/-- `Duration::from_nanos`。引数は `u64` なので、いつも範囲に入る。 -/
def fromNanos (n : UInt64) : Duration :=
  ⟨n.toNat, by have := n.toNat_lt_size; unfold maxNanos; unfold UInt64.size at this; omega⟩

@[simp] theorem fromNanos_nanos (n : UInt64) : (fromNanos n).nanos = n.toNat := rfl

end Duration

/-- `Instant::now()` が返しうる値。最大の `Instant` ではない。 -/
structure ClockReading where
  instant : Instant
  lt_max : instant.nanos < Instant.maxNanos

namespace ClockReading

/-- `now + Duration::from_nanos(1)`。`lt_max` があるので panic しない。 -/
def addOneNano (now : ClockReading) : Instant :=
  ⟨now.instant.nanos + 1, by have := now.instant.min_le; omega, now.lt_max⟩

@[simp] theorem addOneNano_nanos (now : ClockReading) :
    now.addOneNano.nanos = now.instant.nanos + 1 := rfl

/-- `addOneNano` は std の足し算そのものである。 -/
theorem checkedAdd_fromNanos_one (now : ClockReading) :
    now.instant.checkedAdd (Duration.fromNanos 1) = some now.addOneNano :=
  Instant.checkedAdd_eq_some.mpr rfl

end ClockReading

end AsyncWinit
