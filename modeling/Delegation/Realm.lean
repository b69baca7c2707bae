import Delegation.Family
import Delegation.Registry

/-!
# Realms

A registry together with an address family.  Every realm has an index of its own.
-/

namespace Delegation

/-- A registry together with an address family. -/
structure Realm where
  registry : Registry
  family : Family
  deriving DecidableEq, Repr

namespace Realm

/-- All realms, by registry and then by family. -/
def all : List Realm :=
  Registry.all.flatMap fun r => Family.all.map fun f => ⟨r, f⟩

/-- How notes name a realm. -/
def text (r : Realm) : String := r.registry.name ++ " " ++ r.family.title

theorem mem_all (r : Realm) : r ∈ all :=
  List.mem_flatMap.mpr ⟨r.registry, Registry.mem_all _,
    List.mem_map.mpr ⟨r.family, Family.mem_all _, rfl⟩⟩

theorem length_all : all.length = 14 := by decide

theorem nodup_all : all.Nodup := by decide

end Realm

end Delegation
