import Mathlib.Algebra.Group.Nat.Defs

/-! Words of 64 bits, pages and aligned addresses. -/
namespace Ricerca.Foundation

/-- Sums, products and shifts of words. -/
def wrap (n : Nat) : Nat := n % 2 ^ 64

/-- Bytes of a page. -/
def pageSize : Nat := 4096

/-- The last multiple of `align` up to `val`. -/
def alignDown (val align : Nat) : Nat := val / align * align

end Ricerca.Foundation
