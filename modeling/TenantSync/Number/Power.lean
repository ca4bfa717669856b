/-
  TenantSync.Number.Power
  ───────────────────────
  **POWERS OF TWO AND OF TEN.**

  The ranges of machine words and the places of binary digits are powers of
  two, the places of decimal digits powers of ten.
-/
namespace TenantSync

/-- Two to the power `n`. -/
def twoTo (n : Nat) : Nat := Nat.pow 2 n

/-- Ten to the power `n`. -/
def tenTo (n : Nat) : Nat := Nat.pow 10 n

end TenantSync
