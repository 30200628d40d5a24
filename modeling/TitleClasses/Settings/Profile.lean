import TitleClasses.Json.Keyed

/-!
# Profiles

A profile says which vocabulary classifies documents, which fields of its records hold rules and
labels, and which metadata of a document hold its title and its classes. A profile file lists profiles;
what one of them leaves out is as in the default profile, and its values are taken as they are. One
without a name is passed over, and a later profile takes the place of an earlier one of its name.
-/

namespace TitleClasses

/-- A profile. Its values are texts, but a profile file may give others. -/
structure Profile where
  name : Json
  vocabulary : Json
  classField : Json
  termsField : Json
  titleField : Json
  classMetadata : Json
deriving DecidableEq

/-- Profiles by their names. -/
abbrev Profiles := Keyed Profile

namespace Profiles

/-- The profiles with one entry of a profile file added. -/
def addEntry (default : Profile) (ps : Profiles) (entry : Json) : Except Fault Profiles := do
  let name ← entry.member "name" .null
  if name.holds then
    let vocabulary ← entry.member "vocabulary" default.vocabulary
    let classField ← entry.member "class" default.classField
    let termsField ← entry.member "terms" default.termsField
    let titleField ← entry.member "metadataTitle" default.titleField
    let classMetadata ← entry.member "metadataClass" default.classMetadata
    let name ← name.asKey
    return Keyed.put name ⟨name, vocabulary, classField, termsField, titleField, classMetadata⟩ ps
  else return ps

/-- The profiles with the entries of a profile file added. -/
def addAll (default : Profile) (ps : Profiles) (data : Json) : Except Fault Profiles := do
  let entries ← (← data.member "profiles" (.list [])).items
  entries.foldlM (addEntry default) ps

/-- The profile of a name, and the default one of an empty name or none; where there is no such
profile, the fault tells the names there are. -/
def find (ps : Profiles) (default : Profile) (name : Option Text) : Except Fault Profile :=
  match name with
  | none | some [] => .ok default
  | some t =>
    match Keyed.get? (.text t) ps with
    | some p => .ok p
    | none => do throw (.unknownProfile t (← ps.keysText))

end Profiles

end TitleClasses
