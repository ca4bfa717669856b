/-
  TenantSync.Character.Space
  ──────────────────────────
  **WHITE SPACE OF ANY SCRIPT.**

  The characters with the property `White_Space`: the five controls from tab to
  carriage return, the blank, the next-line control, and the spaces and
  separators outside ASCII.  It is a larger class than core's, which knows the
  blank, tab, newline and carriage return only.
-/
namespace TenantSync.Character

/-- White space of any script. -/
def isSpace (c : Char) : Bool :=
  let n := c.toNat
  (9 ≤ n && n ≤ 13) || n == 32 || n == 0x85 || n == 0xA0 || n == 0x1680
    || (0x2000 ≤ n && n ≤ 0x200A) || n == 0x2028 || n == 0x2029 || n == 0x202F || n == 0x205F
    || n == 0x3000

/-- A text without the white space before it. -/
def trimStart (cs : List Char) : List Char := cs.dropWhile isSpace

/-- A text without the white space around it. -/
def trim (cs : List Char) : List Char := (trimStart (trimStart cs).reverse).reverse

end TenantSync.Character
