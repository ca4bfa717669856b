/-
  TenantSync.Config.Text
  ──────────────────────
  **DOCUMENTS AS TEXT.**

  A document is read from the bytes of one YAML document and written back as
  YAML.  Bytes that are not UTF-8, text that is not YAML and data that do not
  fit a document are refused alike.
-/
import TenantSync.Config.Decode
import TenantSync.Config.Encode
import TenantSync.Yaml.Expansion
import TenantSync.Yaml.Printer

namespace TenantSync.Config

/-- Read a document from YAML text. -/
def ofYaml? (text : String) : Option Config := do
  decoder.decode (← Yaml.datum? decoder.shape text.toList)

/-- Read a document from bytes. -/
def ofBytes? (bytes : ByteArray) : Option Config := do
  ofYaml? (← String.fromUTF8? bytes)

/-- Read a document from a value whose scalars are one thing only. -/
def ofValue? (v : Value) : Option Config := decoder.decode (Datum.ofValue v)

/-- Write a document as YAML text. -/
def toYaml (c : Config) : String := Yaml.print c.encode

end TenantSync.Config
