import DocNavigation.Disk.Replace
import DocNavigation.Disk.Text
import DocNavigation.Script.Basic

/-!
Scripts in files: one for the source trees of all units, and one in a folder of each unit's own for
its catalog.
-/

namespace DocNavigation.Script

def sidebarPath (folder unit : String) : String :=
  Path.join (Path.join folder unit) Sidebar.fileName

/-- Gives the paths that were written. -/
def exportTo (folder : String) (r : Registry) : Act (List String) := do
  let index ← Disk.replaceFile (Path.join folder fileName) (render r) "utf-8"
  let sidebars ← r.units.mapM fun u =>
    Disk.replaceFile (sidebarPath folder u.name) (Sidebar.render u.catalog) "utf-8"
  Act.note (.info s!"Legacy: Exported {r.size} units to {folder}")
  return index :: sidebars

/-- A unit without a script has an empty catalog. -/
def importCatalog (folder : Option String) (unit : String) : Act Catalog := do
  match folder.filter (· ≠ "") with
  | none => return {}
  | some folder =>
    let path := sidebarPath folder unit
    if (← Act.disk).isFile path then
      let text ← Act.look (·.readText path)
      Act.lift ((Sidebar.parse text (some path)).mapError .malformed)
    else
      Act.note (.debug s!"Legacy: No sidebar items for unit '{unit}'.")
      return {}

def importUnit (folder : Option String) (r : Registry) (item : String × Tree) : Act Registry := do
  let u : Component := ⟨item.1, item.2, ← importCatalog folder item.1⟩
  let r ← Act.lift ((r.add u).mapError .registry)
  Act.note (Registry.registered u)
  return r

/-- The units of a script in its order. -/
def importFrom (path : String) (folder : Option String) : Act Registry := do
  let text ← Act.look (·.readText path)
  let trees ← Act.lift ((parse text (some path)).mapError .malformed)
  let r ← trees.foldlM (importUnit folder) {}
  Act.note (.info s!"Legacy: Imported {r.size} units from {path}")
  return r.freeze

end DocNavigation.Script
