/-!
# Hexadecimal digits

Digits are read in either case.  Escapes of control characters write a code in four digits.
-/

namespace ChainRegistry.Hex

def value? (c : Char) : Option Nat :=
  if '0' ≤ c ∧ c ≤ '9' then some (c.toNat - '0'.toNat)
  else if 'a' ≤ c ∧ c ≤ 'f' then some (c.toNat - 'a'.toNat + 10)
  else if 'A' ≤ c ∧ c ≤ 'F' then some (c.toNat - 'A'.toNat + 10)
  else none

def number? (digits : List Char) : Option Nat :=
  digits.foldlM (fun sum c => (value? c).map fun v => 16 * sum + v) 0

/-- The last four digits of a number, with letters in lower case. -/
def fourDigits (n : Nat) : List Char :=
  [Nat.digitChar (n / 4096 % 16), Nat.digitChar (n / 256 % 16), Nat.digitChar (n / 16 % 16),
    Nat.digitChar (n % 16)]

theorem value?_digitChar : ∀ d < 16, value? (Nat.digitChar d) = some d := by
  decide

theorem number?_fourDigits {n : Nat} (h : n < 65536) : number? (fourDigits n) = some n := by
  have hdigit (m : Nat) : value? (Nat.digitChar (m % 16)) = some (m % 16) :=
    value?_digitChar _ (Nat.mod_lt _ (by decide))
  have hsum : 16 * (16 * (16 * (16 * 0 + n / 4096 % 16) + n / 256 % 16) + n / 16 % 16) + n % 16
      = n := by
    omega
  simp only [number?, fourDigits, List.foldlM_cons, List.foldlM_nil, hdigit, Option.map_some]
  simpa using hsum

end ChainRegistry.Hex
