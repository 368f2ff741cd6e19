/-!
# Catalogs

A catalog lists things under keys, in the order in which they were registered. A key is registered
only once, and looking up a key that is not there tells which are.
-/

namespace ClassDiagram

/-- The settings with which a thing can be made. -/
inductive Settings where
  /-- It takes no settings at all. -/
  | closed
  /-- It takes settings of these names. -/
  | only (names : List String)
  /-- It takes any setting. -/
  | free
  deriving DecidableEq, Repr

/-- A thing in a catalog, with its key and the label under which it is shown. -/
structure CatalogEntry (α : Type) where
  key : String
  label : String
  value : α
  settings : Settings := .free

/-- A named list of things under keys. -/
structure Catalog (α : Type) where
  name : String := "registry"
  entries : List (CatalogEntry α) := []

/-- Why a catalog cannot be used as asked. -/
inductive CatalogError where
  | unknownKey (catalog key : String) (available : List String)
  | keyTaken (catalog key holder : String)
  | nullLabel
  | settingsRefused (label : String)
  | unknownSetting (label setting : String)
  | reservedSetting (setting : String)
  deriving DecidableEq, Repr

/-- An error in words. -/
def CatalogError.message : CatalogError → String
  | unknownKey catalog key available =>
    let list := ", ".intercalate available
    s!"{catalog}: unknown key '{key}'. Available: {list}"
  | keyTaken catalog key holder => s!"{catalog}: key '{key}' already registered to {holder}"
  | nullLabel => "type name must not contain null characters"
  | settingsRefused label => s!"{label}() takes no arguments"
  | unknownSetting label setting =>
    s!"{label}.__init__() got an unexpected keyword argument '{setting}'"
  | reservedSetting setting =>
    s!"Registry.create() got multiple values for argument '{setting}'"

/-- Checks the names of the settings with which an entry is to be made. -/
def CatalogEntry.check (entry : CatalogEntry α) (settings : List String) :
    Except CatalogError Unit :=
  match entry.settings with
  | .free => .ok ()
  | .closed => if settings.isEmpty then .ok () else .error (.settingsRefused entry.label)
  | .only names =>
    match settings.find? fun setting => !names.contains setting with
    | some setting => .error (.unknownSetting entry.label setting)
    | none => .ok ()

namespace Catalog

variable {α : Type}

/-- The keys, in the order of registration. -/
def keys (catalog : Catalog α) : List String := catalog.entries.map CatalogEntry.key

/-- The keys in ascending order. -/
def sortedKeys (catalog : Catalog α) : List String := catalog.keys.mergeSort

/-- The entry of a key. -/
def find? (catalog : Catalog α) (key : String) : Option (CatalogEntry α) :=
  catalog.entries.find? fun entry => entry.key = key

/-- Whether a key is registered. -/
def contains (catalog : Catalog α) (key : String) : Bool := (catalog.find? key).isSome

/-- The catalog with one more entry. No label holds a null character. -/
def register? (catalog : Catalog α) (entry : CatalogEntry α) : Except CatalogError (Catalog α) :=
  if '\x00' ∈ entry.label.toList then .error .nullLabel
  else
    match catalog.find? entry.key with
    | some holder => .error (.keyTaken catalog.name entry.key holder.label)
    | none => .ok { catalog with entries := catalog.entries ++ [entry] }

/-- The entry of a key that has to be there. -/
def get? (catalog : Catalog α) (key : String) : Except CatalogError (CatalogEntry α) :=
  match catalog.find? key with
  | some entry => .ok entry
  | none => .error (.unknownKey catalog.name key catalog.sortedKeys)

/-- The names that no setting can have. -/
def reservedSettings : List String := ["key", "self"]

/-- The entry of a key, to be made with some settings. -/
def create? (catalog : Catalog α) (key : String) (settings : List String := []) :
    Except CatalogError (CatalogEntry α) :=
  match settings.find? reservedSettings.contains with
  | some setting => .error (.reservedSetting setting)
  | none => do
    let entry ← catalog.get? key
    entry.check settings
    return entry

/-- The entries of some keys, in their order; all entries if no keys are given. -/
def select? (catalog : Catalog α) : Option (List String) →
    Except CatalogError (List (CatalogEntry α))
  | none => .ok catalog.entries
  | some keys => keys.mapM catalog.get?

/-- The catalog with other things under the same keys. -/
def map (f : α → β) (catalog : Catalog α) : Catalog β where
  name := catalog.name
  entries := catalog.entries.map fun entry => { entry with value := f entry.value }

end Catalog

end ClassDiagram
