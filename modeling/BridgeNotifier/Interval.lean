import BridgeNotifier.Text.Numeral
set_option autoImplicit false

namespace BridgeNotifier

/-- Its whole seconds are a 64-bit word. -/
structure Interval where
  nanos : Nat
  bound : nanos < 0x10000000000000000 * 1000000000
  deriving DecidableEq, Repr

namespace Interval

def ofSecs (n : UInt64) : Interval :=
  ⟨n.toNat * 1000000000, Nat.mul_lt_mul_of_pos_right n.toNat_lt (by decide)⟩

def ofMillis (n : UInt64) : Interval :=
  ⟨n.toNat * 1000000, by have := n.toNat_lt; omega⟩

def ofMicros (n : UInt64) : Interval :=
  ⟨n.toNat * 1000, by have := n.toNat_lt; omega⟩

def millis (d : Interval) : Nat := d.nanos / 1000000

def secs (d : Interval) : Nat := d.nanos / 1000000000

def decimals (places part : Nat) : List Char :=
  let ds := Text.Numeral.render 10 part
  ((List.replicate (places - ds.length) '0' ++ ds).reverse.dropWhile (· == '0')).reverse

def amountText (places nanos : Nat) (unit : String) : String :=
  let whole := Text.Numeral.decimal (nanos / Nat.pow 10 places)
  let part := nanos % Nat.pow 10 places
  if part = 0 then whole ++ unit
  else whole ++ "." ++ String.ofList (decimals places part) ++ unit

/-- The span in its largest unit of which it holds at least one, from seconds to nanoseconds. -/
def text (d : Interval) : String :=
  if 1000000000 ≤ d.nanos then amountText 9 d.nanos "s"
  else if 1000000 ≤ d.nanos then amountText 6 d.nanos "ms"
  else if 1000 ≤ d.nanos then amountText 3 d.nanos "µs"
  else amountText 0 d.nanos "ns"

def nextMilli (instant : Nat) : Nat :=
  (instant + 999999) / 1000000 * 1000000

theorem le_nextMilli (instant : Nat) : instant ≤ nextMilli instant := by
  unfold nextMilli
  omega

theorem nextMilli_lt (instant : Nat) : nextMilli instant < instant + 1000000 := by
  unfold nextMilli
  omega

end Interval
end BridgeNotifier
