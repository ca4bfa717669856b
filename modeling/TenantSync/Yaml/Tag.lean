/-
  TenantSync.Yaml.Tag
  ───────────────────
  **TAGS AS OCTETS.**

  A tag names what a node is meant to be.  It is written in ASCII, with `%XX`
  for any octet, so that it need not be UTF-8, and it ends before the first NUL.
  A tag is put together from what its handle stands for and a suffix, each of
  which ends that way by itself.

      core     — begins with `tag:yaml.org,2002:`
      private  — begins with `!`, and is a name of the document's own if it is a
                 text; if it is none, it says nothing about its node
-/
namespace TenantSync.Yaml

/-- A tag in full. -/
structure Tag where
  octets : List UInt8
  deriving DecidableEq, Repr

namespace Tag

/-- The octets of ASCII characters. -/
def ofAscii (cs : List Char) : List UInt8 := cs.map fun c => .ofNat c.toNat

/-- The mark of a private tag. -/
def mark : List UInt8 := ofAscii ['!']

/-- The tag of what a handle stands for and a suffix. -/
def ofParts (expansion suffix : List UInt8) : Tag :=
  ⟨expansion.takeWhile (· != 0) ++ suffix.takeWhile (· != 0)⟩

/-- What the core tags begin with. -/
def corePrefix : List UInt8 := ofAscii "tag:yaml.org,2002:".toList

/-- A core tag. -/
def core (name : String) : Tag := ⟨corePrefix ++ ofAscii name.toList⟩

/-- Whether a tag is private. -/
def isPrivate (t : Tag) : Bool := t.octets.take 1 == mark

/-- Whether a tag is a name of the document's own. -/
def isLocal (t : Tag) : Bool :=
  t.isPrivate && (String.fromUTF8? ⟨t.octets.toArray⟩).isSome

end Tag

end TenantSync.Yaml
