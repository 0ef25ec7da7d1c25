import Xref.Java.TypeInfo

/-!
# Type indexes

All that name resolution asks about types. An index knows finitely many types by name. Some of them
it may not have read yet (`deferred`); asking for one is an event that the one who keeps the index
wants to hear of, since it makes what is read then the answer for good.
-/
namespace Xref.Resolve

open Java

structure TypeIndex where
  info : String → Option TypeInfo
  /-- Whether a type is indexed. It may be so and yet be unreadable. -/
  contains : String → Bool
  /-- Whether any type lives in a package or below it. -/
  packageExists : String → Bool
  deferred : String → Bool
  /-- Names that cover all readable types. -/
  names : List String
  mem_names : ∀ q, (info q).isSome → q ∈ names

namespace TypeIndex

/-- The index of the types in a list. Of types with the same name the first counts. -/
def ofTypes (types : List TypeInfo) : TypeIndex where
  info q := types.find? fun t => t.name == q
  contains q := types.any fun t => t.name == q
  packageExists p := types.any fun t => (packagePrefixes t.package).contains p
  deferred _ := false
  names := types.map TypeInfo.name
  mem_names q h := by
    obtain ⟨t, ht⟩ := Option.isSome_iff_exists.1 h
    have hname : t.name = q := by simpa using List.find?_some ht
    exact List.mem_map.2 ⟨t, List.mem_of_find?_eq_some ht, hname⟩

/-- The types of a compilation unit in front of an index. They hide indexed types of the same
name. -/
def overlay (types : List TypeInfo) (base : TypeIndex) : TypeIndex where
  info q := ((ofTypes types).info q).or (base.info q)
  contains q := (ofTypes types).contains q || base.contains q
  packageExists p := (ofTypes types).packageExists p || base.packageExists p
  deferred q := !(ofTypes types).contains q && base.deferred q
  names := (ofTypes types).names ++ base.names
  mem_names q h := by
    rw [Option.isSome_or, Bool.or_eq_true] at h
    exact List.mem_append.2 (h.imp ((ofTypes types).mem_names q) (base.mem_names q))

end TypeIndex

end Xref.Resolve
