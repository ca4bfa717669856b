/-
  TenantSync.Tenant.Error
  ───────────────────────
  **WHAT CAN GO WRONG IN A CALL TO A TENANT.**
-/
namespace TenantSync

/-- Why a call to a tenant failed. -/
inductive TenantError where
  /-- The element or setting does not exist. -/
  | notFound (what : String)
  /-- The tenant refused the call. -/
  | rejected (why : String)
  /-- The tenant could not be reached or failed by itself. -/
  | unavailable (why : String)
  deriving DecidableEq, Repr

/-- The error in words. -/
def TenantError.message : TenantError → String
  | .notFound what => s!"not found: {what}"
  | .rejected why => s!"rejected: {why}"
  | .unavailable why => s!"unavailable: {why}"

end TenantSync
