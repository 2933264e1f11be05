import GraphConformance.Profile
import GraphConformance.Text.Lowercase

/-!
# Kinds of acceptance

Whether an instance individual may stand in for a template individual is decided by comparing their
profiles. The kind of acceptance says which profile has to contain which. An individual without a
profile is accepted by no kind but `any`, which compares nothing.
-/

set_option autoImplicit false

namespace GraphConformance

/-- How the profiles of two individuals have to be related. -/
inductive MappingKind where
  /-- The template's profile contains the instance's. -/
  | sub
  /-- As `sub`, and an instance about which nothing is said is accepted. -/
  | subIfNotTop
  /-- The instance's profile contains the template's. -/
  | super
  | equivalent
  | any
deriving DecidableEq, Repr

namespace MappingKind

/-- The kinds in order. -/
def all : List MappingKind := [sub, subIfNotTop, super, equivalent, any]

def name : MappingKind → String
  | sub => "sub"
  | subIfNotTop => "sub_if_not_top"
  | super => "super"
  | equivalent => "equivalent"
  | any => "any"

/-- The kind of a name: letter case does not count, hyphens stand for underscores, and some kinds
have other names too. -/
def ofName? (name : String) : Option MappingKind :=
  match String.ofList ((Text.lowercase name).toList.map fun c => if c = '-' then '_' else c) with
  | "sub" | "subclass" => some sub
  | "sub_if_not_top" => some subIfNotTop
  | "super" | "superclass" => some super
  | "equivalent" | "equiv" | "eq" => some equivalent
  | "any" => some any
  | _ => none

end MappingKind

namespace Knowledge

/-- Whether two profiles are related as a kind demands. -/
def related (k : Knowledge) (kind : MappingKind) (instanceProfile templateProfile : Expression) :
    Bool :=
  match kind with
  | .sub => k.subsumes instanceProfile templateProfile
  | .subIfNotTop => instanceProfile = .top || k.subsumes instanceProfile templateProfile
  | .super => k.subsumes templateProfile instanceProfile
  | .equivalent => k.equivalent instanceProfile templateProfile
  | .any => true

/-- Whether an instance individual may stand in for a template individual. The instance's identity
is part of its profile, unless its profile is the one that has to contain the other. -/
def accepts (k : Knowledge) (kind : MappingKind) (individual template : Term) : Bool :=
  if kind = .any then true
  else
    match k.profile individual (kind != .super) false, k.profile template false false with
    | .ok p, .ok t => k.related kind p t
    | _, _ => false

end Knowledge

end GraphConformance
