import Xref.Proofs.Declaration.Collecting

/-!
# Where a unit was found

The origin that a collection is given is written into the types and read nowhere. So collections
that differ in it find the same types, but for their origins.
-/
namespace Xref.Declaration

open Java Syntax Text

def Found.withOrigin (origin : Origin) (s : Found) : Found :=
  { s with types := s.types.map fun t => { t with origin := origin } }

lemma kept_withOrigin (source : List Char) (origin : Origin) :
    Collect.Kept (.refl source) (fun _ => origin) fun s s' => s' = s.withOrigin origin where
  addType info := by
    rintro s _ rfl
    have htypes : (s.types.map fun t => { t with origin := origin }) ++
        [{ info with origin := origin }] =
          (s.types ++ [info]).map fun t => { t with origin := origin } := by simp
    exact ⟨rfl, congrArg (fun types => { s with types := types }) htypes⟩
  addName start name := by rintro s _ rfl; exact ⟨rfl, rfl⟩
  numberAnonymous owner := by rintro s _ rfl; exact ⟨rfl, rfl⟩
  numberLocal owner simple := by rintro s _ rfl; exact ⟨rfl, rfl⟩
  addLocalName owner number simple := by rintro s _ rfl; exact ⟨rfl, rfl⟩

lemma types_of_origin (σ : Collector.Setting) (origin : Origin) {unit : Tree} {stand : Stand}
    (h : Tree.Twin (.refl σ.source) stand unit unit) :
    (Declarations.ofUnit { σ with origin := origin } unit).types =
      (Declarations.ofUnit σ unit).types.map fun t => { t with origin := origin } := by
  have hσ : σ.Twin (.refl σ.source) (fun _ => origin) { σ with origin := origin } :=
    ⟨rfl, rfl, rfl, rfl⟩
  exact congrArg Found.types (foundIn_twin (kept_withOrigin σ.source origin) rfl hσ h
    (packageOf σ.source unit) (importsOf σ.source unit))

end Xref.Declaration
