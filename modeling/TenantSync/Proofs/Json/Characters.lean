/-
  TenantSync.Proofs.Json.Characters
  ─────────────────────────────────
  **THE TEXT OF A VALUE, CHARACTER BY CHARACTER.**

  The printer puts texts together, and taking a long text apart again is slow
  work.  The same characters can be put together as a list (`charsAt`), so that
  what is read from the text of a given value is quickly worked out.
-/
import TenantSync.Json.Printer

namespace TenantSync.Json

/-- The characters of a text in quotes. -/
def quotedChars (s : String) : List Char := '"' :: (s.toList.flatMap quotedChar ++ ['"'])

/-- The characters at the start of a line. -/
def newlineChars (level : Nat) : List Char := '\n' :: List.replicate (2 * level) ' '

mutual

/-- The characters of a value over several lines. -/
def charsAt (level : Nat) : Value → List Char
  | .null => "null".toList
  | .bool b => if b then "true".toList else "false".toList
  | .num n => (number n).toList
  | .str s => quotedChars s
  | .arr [] => ['[', ']']
  | .obj [] => ['\x7b', '\x7d']
  | .arr items => '[' :: (charsItems (level + 1) items ++ (newlineChars level ++ [']']))
  | .obj entries => '\x7b' :: (charsEntries (level + 1) entries ++ (newlineChars level ++ ['\x7d']))

/-- The characters of items, each on its line. -/
def charsItems (level : Nat) : List Value → List Char
  | [] => []
  | [v] => newlineChars level ++ charsAt level v
  | v :: rest => newlineChars level ++ (charsAt level v ++ ',' :: charsItems level rest)

/-- The characters of entries, each on its line. -/
def charsEntries (level : Nat) : List (String × Value) → List Char
  | [] => []
  | [(k, v)] => newlineChars level ++ (quotedChars k ++ ':' :: ' ' :: charsAt level v)
  | (k, v) :: rest =>
      newlineChars level
        ++ (quotedChars k ++ ':' :: ' ' :: (charsAt level v ++ ',' :: charsEntries level rest))

end

theorem toList_quoted (s : String) : (quoted s).toList = quotedChars s := by
  simp [quoted, quotedChars]

theorem toList_newline (level : Nat) : (newline level).toList = newlineChars level :=
  String.toList_ofList

mutual

theorem toList_prettyAt (level : Nat) : ∀ v : Value, (prettyAt level v).toList = charsAt level v
  | .null => rfl
  | .bool b => by cases b <;> rfl
  | .num n => by rw [prettyAt, charsAt]
  | .str s => by rw [prettyAt, charsAt, toList_quoted]
  | .arr [] => by simp [prettyAt, charsAt]
  | .obj [] => by simp [prettyAt, charsAt]
  | .arr (v :: items) => by
      simp [prettyAt, charsAt, toList_newline, toList_prettyItems (level + 1) (v :: items)]
  | .obj (e :: entries) => by
      simp [prettyAt, charsAt, toList_newline, toList_prettyEntries (level + 1) (e :: entries)]

theorem toList_prettyItems (level : Nat) :
    ∀ items : List Value, (prettyItems level items).toList = charsItems level items
  | [] => by simp [prettyItems, charsItems]
  | [v] => by simp [prettyItems, charsItems, toList_newline, toList_prettyAt level v]
  | v :: w :: rest => by
      simp [prettyItems, charsItems, toList_newline, toList_prettyAt level v,
        toList_prettyItems level (w :: rest)]

theorem toList_prettyEntries (level : Nat) :
    ∀ entries : List (String × Value), (prettyEntries level entries).toList
      = charsEntries level entries
  | [] => by simp [prettyEntries, charsEntries]
  | [(k, v)] => by
      simp [prettyEntries, charsEntries, toList_newline, toList_quoted, toList_prettyAt level v]
  | (k, v) :: e :: rest => by
      simp [prettyEntries, charsEntries, toList_newline, toList_quoted, toList_prettyAt level v,
        toList_prettyEntries level (e :: rest)]

end

/-- **The characters of a text are those of the value.** -/
theorem toList_pretty (v : Value) : (pretty v).toList = charsAt 0 v := toList_prettyAt 0 v

end TenantSync.Json
