/-
  TenantSync.Push.Options
  ───────────────────────
  **HOW A PUSH IS TO BE DONE.**

  A mode says what may be done to single elements, a selection which categories
  are looked at.  Without a selection a push has nothing to do.
-/
import TenantSync.Push.Category

namespace TenantSync.Push

/-- What may be done to single elements. -/
structure Mode where
  /-- Find out what would be done and do nothing. -/
  dryRun : Bool := false
  /-- Remove elements that are not desired. -/
  force : Bool := false
  drift : DriftPolicy := .keep
  deriving DecidableEq, Repr

/-- Whether elements of different content are replaced. -/
def Mode.replacesDrift (m : Mode) : Bool := m.force && m.drift = .replace

/-- How a push is to be done. -/
structure Options where
  mode : Mode := {}
  /-- The selected categories. -/
  selected : Category → Bool := fun _ => false

namespace Options

/-- Options under which every category is looked at. -/
def allCategories : Options := { selected := fun _ => true }

/-- Select a category, or drop it from the selection. -/
def setCategory (o : Options) (c : Category) (on : Bool) : Options :=
  { o with selected := fun d => if d = c then on else o.selected d }

/-- Select the categories of a list. -/
def select (o : Options) (cs : List Category) : Options :=
  cs.foldl (fun o c => o.setCategory c true) o

/-- The selected categories, in the order of a push. -/
def categories (o : Options) : List Category := Category.all.filter o.selected

/-- The options in words; `loader` tells whether documents come from somewhere
else than the file system. -/
def describe (o : Options) (loader : Bool) : String :=
  let categories := ", ".intercalate (o.categories.map Category.label)
  "SyncOptions \x7b " ++ s!"dry_run: {o.mode.dryRun}, force: {o.mode.force}, "
    ++ s!"drift: {o.mode.drift.label}, categories: [{categories}], include_loader: {loader}"
    ++ " \x7d"

end Options

end TenantSync.Push
