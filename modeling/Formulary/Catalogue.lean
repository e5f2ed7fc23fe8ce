import Formulary.Template.Basic

/-
  The catalogue of structure types.

  A structure type fixes the stoichiometry of a formula: which sites it has, in
  which order, how often each counts, and which of them are left open. It is
  offered to programs as a macro whose formals are the open sites, each used
  once and in order.
-/

namespace Formulary

/-- A site of a structure: open, under the name of a formal, or taken by an
element. -/
inductive Site where
  | formal (name : String)
  | fixed (tag : String)
  deriving DecidableEq, Repr

namespace Site

/-- The form that stands for a site in a template. -/
def form : Site → Value
  | formal name => .sym name
  | fixed tag => .elem tag

def formal? : Site → Option String
  | formal name => some name
  | fixed _ => none

end Site

/-- A structure type: its name, its sites with their counts, and a formula that
has this structure. -/
structure StructureType where
  name : String
  sites : List (Site × Nat)
  sample : String
  deriving DecidableEq, Repr

namespace StructureType

def formals (s : StructureType) : List String := s.sites.filterMap fun p => p.1.formal?

def arity (s : StructureType) : Nat := s.formals.length

/-- The form that builds the formula from the sites. -/
def body (s : StructureType) : Value :=
  .list (.sym "material" :: s.sites.flatMap fun p => [p.1.form, .int p.2])

/-- The macro of a structure type. -/
def template (s : StructureType) : Template := ⟨s.name, s.formals, s.body⟩

/-- A call of the macro with its formals, as users are shown it. -/
def signature (s : StructureType) : String :=
  "(" ++ s.name ++ " " ++ " ".intercalate s.formals ++ ")"

end StructureType

/-- The structure types: oxides, halides and chalcogenides, elemental lattices
and intermetallics, battery materials, and layered ones. -/
def catalogue : List StructureType :=
  [⟨"perovskite", [(.formal "A", 1), (.formal "B", 1), (.formal "X", 3)], "CaTiO3"⟩,
   ⟨"double-perovskite", [(.formal "A", 2), (.formal "B", 1), (.formal "C", 1), (.fixed "O", 6)],
     "Sr2FeMoO6"⟩,
   ⟨"anti-perovskite", [(.formal "A", 3), (.formal "B", 1), (.formal "X", 1)], "Li3OCl"⟩,
   ⟨"ruddlesden-popper", [(.formal "A", 2), (.formal "B", 1), (.fixed "O", 4)], "Sr2RuO4"⟩,
   ⟨"spinel", [(.formal "A", 1), (.formal "B", 2), (.fixed "O", 4)], "MgAl2O4"⟩,
   ⟨"binary-oxide", [(.formal "M", 2), (.fixed "O", 3)], "Fe2O3"⟩,
   ⟨"corundum", [(.formal "M", 2), (.fixed "O", 3)], "Al2O3"⟩,
   ⟨"rutile", [(.formal "M", 1), (.fixed "O", 2)], "TiO2"⟩,
   ⟨"zircon", [(.formal "M", 1), (.fixed "Si", 1), (.fixed "O", 4)], "ZrSiO4"⟩,
   ⟨"ilmenite", [(.formal "A", 1), (.formal "B", 1), (.fixed "O", 3)], "FeTiO3"⟩,
   ⟨"delafossite", [(.formal "A", 1), (.formal "B", 1), (.fixed "O", 2)], "CuFeO2"⟩,
   ⟨"pyrochlore", [(.formal "A", 2), (.formal "B", 2), (.fixed "O", 7)], "Y2Ti2O7"⟩,
   ⟨"garnet", [(.formal "A", 3), (.formal "B", 2), (.formal "C", 3), (.fixed "O", 12)],
     "Y3Al2Fe3O12"⟩,
   ⟨"rock-salt", [(.formal "A", 1), (.formal "B", 1)], "NaCl"⟩,
   ⟨"cesium-chloride", [(.formal "A", 1), (.formal "B", 1)], "CsCl"⟩,
   ⟨"fluorite", [(.formal "A", 1), (.formal "X", 2)], "CaF2"⟩,
   ⟨"anti-fluorite", [(.formal "A", 2), (.formal "X", 1)], "Li2O"⟩,
   ⟨"wurtzite", [(.formal "A", 1), (.formal "B", 1)], "ZnO"⟩,
   ⟨"zincblende", [(.formal "A", 1), (.formal "B", 1)], "GaAs"⟩,
   ⟨"chalcopyrite", [(.formal "A", 1), (.formal "B", 1), (.formal "X", 2)], "CuInSe2"⟩,
   ⟨"kesterite", [(.formal "A", 2), (.formal "B", 1), (.formal "C", 1), (.fixed "S", 4)],
     "Cu2ZnSnS4"⟩,
   ⟨"skutterudite", [(.formal "M", 1), (.formal "X", 3)], "CoSb3"⟩,
   ⟨"fcc", [(.formal "M", 1)], "Cu"⟩,
   ⟨"bcc", [(.formal "M", 1)], "Fe"⟩,
   ⟨"hcp", [(.formal "M", 1)], "Mg"⟩,
   ⟨"diamond", [(.formal "M", 1)], "Si"⟩,
   ⟨"heusler", [(.formal "A", 2), (.formal "B", 1), (.formal "C", 1)], "Cu2MnAl"⟩,
   ⟨"half-heusler", [(.formal "A", 1), (.formal "B", 1), (.formal "C", 1)], "TiNiSn"⟩,
   ⟨"layered-oxide", [(.formal "A", 1), (.formal "M", 1), (.fixed "O", 2)], "LiCoO2"⟩,
   ⟨"spinel-cathode", [(.formal "A", 1), (.formal "M", 2), (.fixed "O", 4)], "LiMn2O4"⟩,
   ⟨"olivine", [(.formal "A", 1), (.formal "M", 1), (.formal "X", 1), (.fixed "O", 4)], "LiFePO4"⟩,
   ⟨"nasicon", [(.formal "A", 3), (.formal "M", 2), (.formal "X", 3), (.fixed "O", 12)],
     "Na3V2P3O12"⟩,
   ⟨"dichalcogenide-2d", [(.formal "M", 1), (.formal "X", 2)], "MoS2"⟩,
   ⟨"mxene", [(.formal "M", 2), (.formal "X", 1)], "Ti2C"⟩,
   ⟨"monolayer", [(.formal "M", 1)], "C"⟩]

def catalogueTemplates : Templates := catalogue.map fun s => (s.name, s.template)

def structureType? (name : String) : Option StructureType :=
  catalogue.find? fun s => s.name = name

end Formulary
